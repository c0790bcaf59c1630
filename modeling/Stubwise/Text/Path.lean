import Stubwise.Text.Find

namespace Stubwise

structure Path where
  rooted : Bool := false
  parts : List String := []
  deriving DecidableEq, Repr, Inhabited

namespace Path

def step (rooted : Bool) (back : List String) (part : String) : List String :=
  if part == "" || part == "." then back
  else if part == ".." then
    match back with
    | [] => if rooted then [] else [".."]
    | last :: outer => if last == ".." then ".." :: back else outer
  else part :: back

def clean (text : String) : Path :=
  let rooted := Text.hasPrefix text "/"
  { rooted, parts := ((Text.split '/' text).foldl (step rooted) []).reverse }

def text (path : Path) : String :=
  if path.rooted then "/" ++ "/".intercalate path.parts
  else if path.parts.isEmpty then "." else "/".intercalate path.parts

def cleanText (text : String) : String :=
  (clean text).text

def isRooted (text : String) : Bool :=
  Text.hasPrefix text "/"

/-- The path `text`, taken from the directory `base` on. -/
def join (base text : String) : String :=
  if base.isEmpty && text.isEmpty then ""
  else if base.isEmpty then cleanText text
  else if text.isEmpty then cleanText base
  else cleanText (base ++ "/" ++ text)

def baseName (text : String) : String :=
  if text.isEmpty then "."
  else
    let kept := String.ofList (Text.dropEndWhile (· == '/') text.toList)
    if kept.isEmpty then "/" else (Text.split '/' kept).getLastD ""

def dirName (text : String) : String :=
  let kept := Text.dropEndWhile (· != '/') text.toList
  cleanText (String.ofList kept)

def dropShared : List String → List String → List String × List String
  | a :: as, b :: bs => if a == b then dropShared as bs else (a :: as, b :: bs)
  | as, bs => (as, bs)

/-- The path that leads from `base` to `target`. -/
def relative? (base target : String) : Option String :=
  let from_ := clean base
  let goal := clean target
  if from_ == goal then some "."
  else if from_.rooted != goal.rooted then none
  else
    let (up, down) := dropShared from_.parts goal.parts
    if up.head? == some ".." then none
    else some ("/".intercalate (up.map (fun _ => "..") ++ down))

end Path

end Stubwise
