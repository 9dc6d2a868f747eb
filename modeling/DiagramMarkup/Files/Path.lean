import DiagramMarkup.Text.Split

/-!
# Paths

Paths of files: components divided by slashes. `clean` gives the shortest path that means the same without looking at
any file.
-/

namespace DiagramMarkup.Files

namespace Path

/-- Does the path start at the root? -/
def isAbsolute (p : String) : Bool := p.toList.head? == some '/'

/-- The components between slashes, empty ones included. -/
def components (p : String) : List String := Text.splitAt '/' p

/-- Put one component behind cleaned ones, which come last first. A parent component takes the one before it
away; at the root it does nothing. -/
def addComponent (rooted : Bool) (stack : List String) (c : String) : List String :=
  if c == "" || c == "." then stack
  else if c == ".." then
    match stack with
    | [] => if rooted then [] else [".."]
    | top :: rest => if top == ".." then ".." :: top :: rest else rest
  else c :: stack

/-- The components that are left when a path is cleaned. -/
def cleanComponents (rooted : Bool) (cs : List String) : List String :=
  (cs.foldl (addComponent rooted) []).reverse

/-- The shortest path with the same meaning. -/
def clean (p : String) : String :=
  let rooted := isAbsolute p
  let body := "/".intercalate (cleanComponents rooted (components p))
  if rooted then "/" ++ body else if body == "" then "." else body

/-- Paths one below the other, cleaned; empty ones are left out. -/
def join (ps : List String) : String :=
  match ps.filter (· != "") with
  | [] => ""
  | ps => clean ("/".intercalate ps)

/-- What stands up to the last slash, and what stands behind it. -/
def split (p : String) : String × String :=
  let back := p.toList.reverse
  (String.ofList (back.dropWhile (· != '/')).reverse, String.ofList (back.takeWhile (· != '/')).reverse)

/-- The path of the directory that holds the file. -/
def dir (p : String) : String := clean (split p).1

/-- The last component. -/
def base (p : String) : String :=
  if p == "" then "."
  else
    let back := p.toList.reverse.dropWhile (· == '/')
    if back.isEmpty then "/" else String.ofList (back.takeWhile (· != '/')).reverse

/-- The extension of the last component, with its dot. -/
def ext (p : String) : String :=
  let back := (split p).2.toList.reverse
  match back.dropWhile (· != '.') with
  | [] => ""
  | _ => String.ofList ('.' :: (back.takeWhile (· != '.')).reverse)

/-- The last component without its extension. -/
def stem (p : String) : String := Text.dropEnd (ext p) (base p)

/-- The last components of a path that no empty component interrupts; one slash at the end does not count. -/
def segments (p : String) : List String :=
  ((components (Text.dropEnd "/" p)).reverse.takeWhile (· != "")).reverse

end Path

end DiagramMarkup.Files
