import Mathlib

/-!
Path names taken component by component: what the components of a path are, and that resolving
a path whose first part leads to a directory is resolving the rest from that directory.
-/

namespace PathNames

abbrev Component := List Char

def componentsFrom (current : Component) : List Char → List Component
  | [] => if current = [] then [] else [current]
  | char :: rest =>
      if char = '/' then
        if current = [] then componentsFrom [] rest else current :: componentsFrom [] rest
      else componentsFrom (current ++ [char]) rest

def components (path : List Char) : List Component := componentsFrom [] path

def endsInSlash (path : List Char) : Bool := path.getLast? = some '/'

theorem componentsFrom_slash (path rest : List Char) : ∀ current,
    componentsFrom current (path ++ '/' :: rest) =
      componentsFrom current path ++ componentsFrom [] rest := by
  induction path with
  | nil =>
      intro current
      simp only [List.nil_append, componentsFrom, if_true]
      split
      · rfl
      · rfl
  | cons char path ih =>
      intro current
      simp only [List.cons_append, componentsFrom]
      split
      next slash =>
        split
        next => exact ih []
        next => rw [ih [], List.cons_append]
      next => exact ih (current ++ [char])

theorem components_join (path rest : List Char) :
    components (path ++ '/' :: rest) = components path ++ components rest :=
  componentsFrom_slash path rest []

theorem componentsFrom_ne_nil (path : List Char) : ∀ current : Component, current ≠ [] →
    componentsFrom current path ≠ [] := by
  induction path with
  | nil =>
      intro current nonempty
      simp [componentsFrom, nonempty]
  | cons char path ih =>
      intro current nonempty
      simp only [componentsFrom]
      split
      next slash => simp
      next => exact ih (current ++ [char]) (by simp)

theorem components_ne_nil (path : List Char) (nonempty : path ≠ [])
    (relative : path.head? ≠ some '/') : components path ≠ [] := by
  cases path with
  | nil => exact absurd rfl nonempty
  | cons char path =>
      have letter : char ≠ '/' := by
        intro slash
        exact relative (by rw [slash, List.head?_cons])
      rw [components, componentsFrom, if_neg letter]
      exact componentsFrom_ne_nil path _ (by simp)

theorem endsInSlash_append (path rest : List Char) (nonempty : rest ≠ []) :
    endsInSlash (path ++ rest) = endsInSlash rest := by
  unfold endsInSlash
  rw [List.getLast?_append_of_ne_nil _ nonempty]

section Resolution

variable {Dir Error : Type} (enter : Dir → Component → Except Error Dir)

/-- A directory, the name to look up in it, which is missing if the path names the directory
itself, and whether the path asks for a directory by a slash at its end. -/
structure Name (Dir : Type) where
  dir : Dir
  last : Option Component
  slash : Bool
  deriving DecidableEq

def walk (start : Dir) : List Component → Except Error Dir
  | [] => .ok start
  | first :: rest => (enter start first).bind fun next => walk next rest

def locate (start : Dir) (parts : List Component) (slash : Bool) : Except Error (Name Dir) :=
  match parts.getLast? with
  | none => .ok ⟨start, none, slash⟩
  | some last => (walk enter start parts.dropLast).map fun dir => ⟨dir, some last, slash⟩

theorem walk_append (first second : List Component) : ∀ start,
    walk enter start (first ++ second) =
      (walk enter start first).bind fun middle => walk enter middle second := by
  induction first with
  | nil => exact fun start => rfl
  | cons part first ih =>
      intro start
      simp only [List.cons_append, walk]
      cases enter start part with
      | error error => rfl
      | ok next => exact ih next

theorem locate_append (start dir : Dir) (first second : List Component) (slash : Bool)
    (reached : walk enter start first = .ok dir) (nonempty : second ≠ []) :
    locate enter start (first ++ second) slash = locate enter dir second slash := by
  unfold locate
  rw [List.getLast?_append_of_ne_nil _ nonempty, List.dropLast_append_of_ne_nil nonempty,
    walk_append, reached]
  cases last : second.getLast? with
  | none => exact absurd (List.getLast?_eq_none_iff.mp last) nonempty
  | some part => rfl

theorem locate_append_error (start : Dir) (error : Error) (first second : List Component)
    (slash : Bool) (failed : walk enter start first = .error error) (nonempty : second ≠ []) :
    locate enter start (first ++ second) slash = .error error := by
  unfold locate
  rw [List.getLast?_append_of_ne_nil _ nonempty, List.dropLast_append_of_ne_nil nonempty,
    walk_append, failed]
  cases last : second.getLast? with
  | none => exact absurd (List.getLast?_eq_none_iff.mp last) nonempty
  | some part => rfl

end Resolution

end PathNames
