import ManifestLint.Manifest

/-!
The sample manifest that comes with the program: a single-stage image that installs every
dependency, so that both built-in rules fire on it.
-/

namespace ManifestLint.Template

def text : String :=
  "\nFROM node:18\n\n# Should add: RUN adduser --system appuser && USER appuser\n\nWORKDIR /app\n\n"
    ++ "COPY . .\n\nRUN npm install\n\n\nEXPOSE 3000\nCMD [\"node\", \"index.js\"]\n"

def manifest : Manifest := ⟨text⟩

end ManifestLint.Template
