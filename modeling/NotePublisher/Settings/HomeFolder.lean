import NotePublisher.Text.Basic

namespace NotePublisher

/-!
# Home folders

The home folder of the user is named by the environment. In a path, a tilde
in front of the first slash stands for it; a tilde anywhere else is an
ordinary character.
-/

namespace HomeFolder

/-- The home folder where the environment names none. -/
def fallback : Text :=
  ['/', 'r', 'o', 'o', 't']

/-- The home folder, from what the environment names. -/
def ofVariable (value : Text) : Text :=
  if value.isEmpty then fallback else value

/-- A path in which a tilde in front of the first slash stands for the home folder. -/
def expand
    (home path : Text) :
    Text :=
  match path with
  | ['~'] => home
  | '~' :: '/' :: rest => home ++ '/' :: rest
  | _ => path

end HomeFolder

end NotePublisher
