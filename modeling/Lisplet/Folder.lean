import Lisplet.Fault

/-! Folders of files, and what a path leads to in them. -/

namespace Lisplet

inductive Entry where
  | file (bytes : ByteArray)
  | folder (entries : List (String × Entry))

namespace Entry

def bytes : Entry → Except FileFault ByteArray
  | file bytes => .ok bytes
  | folder _ => .error .isFolder

def parts (path : String) : List String :=
  (cut [] path.toList).map String.ofList
where
  cut (part : List Char) : List Char → List (List Char)
    | [] => [part.reverse]
    | c :: cs => if c = '/' then part.reverse :: cut [] cs else cut (c :: part) cs

def follow (above : List Entry) : Entry → List String → Except FileFault Entry
  | here, [] => .ok here
  | file _, _ :: _ => .error .notFolder
  | folder entries, part :: rest =>
    if part = "" ∨ part = "." then follow above (folder entries) rest
    else if part = ".." then
      match above with
      -- nothing is known above the outermost folder
      | [] => follow [] (folder []) rest
      | outer :: above => follow above outer rest
    else match entries.lookup part with
      | some entry => follow (folder entries :: above) entry rest
      | none => .error .missing

def find (root : Entry) (path : String) : Except FileFault Entry :=
  match path.toList with
  | [] => .error .missing
  | '/' :: _ => follow [] (folder []) (parts path)
  | _ => follow [] root (parts path)

def read (root : Entry) (path : String) : Except FileFault String :=
  (root.find path).bind fun entry =>
    entry.bytes.bind fun bytes =>
      match String.fromUTF8? bytes with
      | some text => .ok text
      | none => .error .notText

end Entry

end Lisplet
