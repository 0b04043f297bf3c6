import Mathlib.Data.List.Basic
import Mathlib.Data.String.Basic
import Mathlib.Data.Prod.Lex
import Mathlib.Data.List.Lex

namespace ConcurrencyAnalyzer.Library

-- A path of the generic format. A separator at its end is a last name that is empty.
structure PosixPath where
  rooted : Bool := false
  names : List String := []
  deriving DecidableEq, Repr

namespace PosixPath

-- The names between separators, where `name` is read of the first of them.
def namesFrom (name : List Char) : List Char → List (List Char)
  | [] => [name]
  | ch :: rest => if ch = '/' then name :: namesFrom [] rest else namesFrom (name ++ [ch]) rest

def parse (text : String) : PosixPath where
  rooted := text.toList.head? = some '/'
  names :=
    let names := ((namesFrom [] text.toList).filter (· ≠ [])).map String.ofList
    names ++ if names ≠ [] ∧ text.toList.getLast? = some '/' then [""] else []

def text (path : PosixPath) : String :=
  (if path.rooted then "/" else "") ++ String.intercalate "/" path.names

-- A file named from a directory.
def join (directory file : PosixPath) : PosixPath :=
  if file.rooted then file
  else if file.names = [] then
    { directory with
      names := directory.names ++
        if directory.names ≠ [] ∧ directory.names.getLast? ≠ some "" then [""] else [] }
  else { directory with names := directory.names.filter (· ≠ "") ++ file.names }

-- The stack of the names so far, its top first.
def push (rooted : Bool) (stack : List String) (name : String) : List String :=
  if name = "" ∨ name = "." then stack
  else if name = ".." then
    match stack with
    | [] => if rooted then [] else [".."]
    | top :: rest => if top = ".." then ".." :: top :: rest else rest
  else name :: stack

-- The path ends where its last name was: what was there is a directory.
def endsInDirectory (path : PosixPath) : Bool :=
  path.names.getLast?.any fun name => name = "" || name = "." || name = ".."

def lexicallyNormal (path : PosixPath) : PosixPath :=
  if path.rooted = false ∧ path.names = [] then path
  else
    match path.names.foldl (push path.rooted) [] with
    | [] => if path.rooted then { rooted := true } else { names := ["."] }
    | top :: rest =>
        { path with
          names := (top :: rest).reverse ++
            if top ≠ ".." ∧ path.endsInDirectory then [""] else [] }

-- Paths in the order of their elements, the relative ones first.
def order (path : PosixPath) : Bool ×ₗ List String := toLex (path.rooted, path.names)

theorem order_injective : Function.Injective order := by
  rintro ⟨rooted, names⟩ ⟨rooted', names'⟩ h
  obtain ⟨rfl, rfl⟩ := Prod.mk.inj (toLex.injective h)
  rfl

-- What the stack can be: names that stand for themselves, over steps up where there is no root.
def Reduced (rooted : Bool) : List String → Prop
  | [] => True
  | name :: rest => name ≠ "" ∧ name ≠ "." ∧
      (name = ".." → rooted = false ∧ ∀ below ∈ rest, below = "..") ∧ Reduced rooted rest

theorem reduced_push {rooted : Bool} {stack : List String} (h : Reduced rooted stack) (name : String) :
    Reduced rooted (push rooted stack name) := by
  unfold push
  split
  · exact h
  · rename_i hname
    rw [not_or] at hname
    split
    · rename_i hup
      cases stack with
      | nil =>
          cases rooted with
          | true => trivial
          | false => exact ⟨by decide, by decide, fun _ => ⟨rfl, by simp⟩, trivial⟩
      | cons top rest =>
          simp only
          split
          · rename_i htop
            obtain ⟨hrooted, hbelow⟩ := h.2.2.1 htop
            exact ⟨by decide, by decide, fun _ => ⟨hrooted, List.forall_mem_cons.mpr ⟨htop, hbelow⟩⟩, h⟩
          · exact h.2.2.2
    · exact ⟨hname.1, hname.2, fun hup => absurd hup ‹_›, h⟩

theorem reduced_foldl_push (rooted : Bool) (names : List String) :
    Reduced rooted (names.foldl (push rooted) []) :=
  List.foldlRecOn (motive := Reduced rooted) names _ trivial fun _ h name _ => reduced_push h name

-- Names that a reduced stack came to are pushed back as they are.
theorem foldl_push_reverse {rooted : Bool} {stack : List String} (h : Reduced rooted stack) :
    stack.reverse.foldl (push rooted) [] = stack := by
  induction stack with
  | nil => rfl
  | cons name rest ih =>
      obtain ⟨hempty, hdot, hup, hrest⟩ := h
      rw [List.reverse_cons, List.foldl_append, ih hrest, List.foldl_cons, List.foldl_nil]
      unfold push
      rw [if_neg (by rw [not_or]; exact ⟨hempty, hdot⟩)]
      by_cases hname : name = ".."
      · obtain ⟨hrooted, hbelow⟩ := hup hname
        subst hname
        cases rest with
        | nil => simp [hrooted]
        | cons top below =>
            obtain rfl := hbelow top (List.mem_cons_self ..)
            simp
      · rw [if_neg hname]

theorem push_empty (rooted : Bool) (stack : List String) : push rooted stack "" = stack := by
  simp [push]

theorem lexicallyNormal_idempotent (path : PosixPath) :
    path.lexicallyNormal.lexicallyNormal = path.lexicallyNormal := by
  obtain ⟨rooted, names⟩ := path
  have hreduced := reduced_foldl_push rooted names
  unfold lexicallyNormal
  simp only
  by_cases hempty : rooted = false ∧ names = []
  · simp [hempty]
  · rw [if_neg hempty]
    cases hstack : names.foldl (push rooted) [] with
    | nil => cases rooted <;> simp [push]
    | cons top rest =>
        rw [hstack] at hreduced
        have hback := foldl_push_reverse hreduced
        have htop : top ≠ "" ∧ top ≠ "." := ⟨hreduced.1, hreduced.2.1⟩
        simp only
        -- The stack is the same, and the last name is the empty one exactly where it was put there.
        by_cases hends : top ≠ ".." ∧ endsInDirectory ⟨rooted, names⟩ = true
        · have hagain : ((top :: rest).reverse ++ [""]).foldl (push rooted) [] = top :: rest := by
            rw [List.foldl_append, hback]
            exact push_empty rooted _
          simp only [if_pos hends, hagain]
          simp [endsInDirectory, hends.1]
        · simp only [if_neg hends, List.append_nil, hback]
          simp only [endsInDirectory, List.getLast?_reverse, List.head?_cons, Option.any_some]
          simp [htop]

end PosixPath

end ConcurrencyAnalyzer.Library
