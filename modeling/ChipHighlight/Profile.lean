import ChipHighlight.Event

/-!
# Profiles

A profile counts what was read: lines, tokens and characters.  It follows the
events of a scan, of which only the end of a line counts.
-/

namespace ChipHighlight

structure Profile where
  lines : Int := 0
  tokens : Int := 0
  chars : Int := 0
deriving DecidableEq, Repr

namespace Profile

def record (chars tokens : Int) (p : Profile) : Profile :=
  ⟨p.lines + 1, p.tokens + tokens, p.chars + chars⟩

def note (p : Profile) : Event → Profile
  | .lineEnd _ chars tokens _ => p.record chars tokens
  | _ => p

def follow (p : Profile) (events : List Event) : Profile := events.foldl note p

@[simp] theorem follow_nil (p : Profile) : p.follow [] = p := rfl

@[simp] theorem follow_cons (p : Profile) (e : Event) (events : List Event) :
    p.follow (e :: events) = (p.note e).follow events := rfl

theorem follow_append (p : Profile) (xs ys : List Event) :
    p.follow (xs ++ ys) = (p.follow xs).follow ys := List.foldl_append

end Profile

end ChipHighlight
