import Mininet.Crypto

/-!
# Replacing files

A file is replaced by writing a new one beside it, flushing it and renaming it over the old one. A
call that fails has left the old or the new content in place, and its caller cannot tell which.
-/

namespace Mininet

/-- How replacing a file ends: it is replaced, or the call fails, with the new or the old content in
place. -/
inductive Replacement where
  | replaced
  | failed (written : Bool)
  deriving DecidableEq

/-- The directory after replacing a file. -/
def Replacement.files {Path : Type} [DecidableEq Path] (outcome : Replacement) (path : Path)
    (bytes : Bytes) (files : Path → Option Bytes) : Path → Option Bytes :=
  match outcome with
  | .failed false => files
  | _             => Function.update files path (some bytes)

end Mininet
