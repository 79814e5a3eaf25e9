import WeaveGate.Lib.Posix.PathBuf
import WeaveGate.Static.Handle

/-!
# Texts of sanitized paths

`sanitize_path` of `fs/path.rs` on the bytes of its paths, with all its checks.
-/

namespace WeaveGate.Static

open Posix (Octets Path PathBuf.push)

def isNormal : Posix.Component → Bool
  | .normal _ => true
  | _ => false

def decodeTailText (tail : Str) : Octets := Percent.decode (Posix.utf8 (Text.trimStartMatches '/' tail))

/-- The body of the loop over the components of the tail. -/
def pushComponent (fullPath : Octets) : Posix.Component → Octets
  | .normal comp => if (Posix.Path.parse comp).all isNormal then PathBuf.push fullPath comp else fullPath
  | .curDir => fullPath
  | .rootDir => fullPath
  | .parentDir => fullPath

def sanitizePathBuf (base : Octets) (tail : Str) : Octets :=
  (Posix.Path.parse (decodeTailText tail)).foldl pushComponent base

end WeaveGate.Static
