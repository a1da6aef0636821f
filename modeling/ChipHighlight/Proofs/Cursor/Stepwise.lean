import ChipHighlight.Config.Basic
import ChipHighlight.Cursor.Action
import ChipHighlight.Proofs.Cursor.Ahead

/-!
# Readings made of single steps

The action `read` of a host takes the text ahead in one go.  Here the same reading is a program
that looks at one character of the line at a time, by its place, and moves the cursor and the
stack as it goes (`Steps.read`).  Every look can fail, and a failure keeps what the steps before it
have done.

Most parts of the program only move the cursor, and what such a part does depends on the text
ahead alone: `Gives m t a n` says that where `t` is ahead it takes `n` characters and gives `a`.
Programs put together give what their parts give one after the other (`Gives.bind`), so each
rule is one line.  Words and literals are the exceptions: a word looks at the line behind the
cursor, and a literal changes the stack.

From any place where something can be read the program comes to what the action comes to
(`Steps.read_eq`), and no look fails on the way, although places turn from -1 to 0 where the line
goes round.  From before the beginning its first look fails (`Steps.read_error`).
-/

namespace ChipHighlight.Cursor

/-! ### Single steps -/

/-- A program of steps on a desk.  When one fails, what was done until then stays done. -/
abbrev Steps := EStateM Text Desk

namespace Steps

def look : Steps (Option Char) := do
  let c := (← get).cursor
  if c.atEnd then return none
  match Index.get? c.line c.place with
  | some x => return some x
  | none => throw (unreadable c)

def moveOn : Steps Unit := modify fun d => { d with cursor := d.cursor.advance 1 }

def take : Steps (Option Char) := do
  match ← look with
  | none => return none
  | some x =>
    moveOn
    return some x

def takeIf (p : Char → Bool) : Steps Bool := do
  match ← look with
  | none => return false
  | some x =>
    if p x then
      moveOn
      return true
    else return false

def passWhile (p : Char → Bool) (stack : Stack) (c : Cursor) : EStateM.Result Text Desk Unit :=
  if _h : c.atEnd then .ok () ⟨c, stack⟩
  else
    match Index.get? c.line c.place with
    | none => .error (unreadable c) ⟨c, stack⟩
    | some x => if p x then passWhile p stack (c.advance 1) else .ok () ⟨c, stack⟩
termination_by (c.line.length - c.place).toNat
decreasing_by exact left_advance_lt _h

def passAll (p : Char → Bool) : Steps Unit := fun d => passWhile p d.stack d.cursor

def takeWhile (p : Char → Bool) : Steps Bool := do
  let begun := (← get).cursor.place
  passAll p
  return begun < (← get).cursor.place

def toEnd : Steps Unit := modify fun d => { d with cursor := d.cursor.toEnd }

def isAhead (p : Char → Bool) : Steps Bool := do return (← look).any p

def passLiteral (a : Literal) (outer : Stack) (c : Cursor) :
    EStateM.Result Text Desk (Option Style) :=
  if _h : c.atEnd then .ok a.style ⟨c, a :: outer⟩
  else
    match Index.get? c.line c.place with
    | none => .error (unreadable c) ⟨c, a :: outer⟩
    | some x =>
      if a.closesAt x then .ok a.style ⟨c.advance 1, outer⟩
      else if a.opensAt x then passLiteral a.fresh (a :: outer) (c.advance 1)
      else passLiteral (a.pass x) outer (c.advance 1)
termination_by (c.line.length - c.place).toNat
decreasing_by all_goals exact left_advance_lt _h

def literal : Steps (Option Style) := fun d =>
  match d.stack with
  | [] => .ok none d
  | a :: outer => passLiteral a outer d.cursor

def push (a : Literal) : Steps Unit := modify fun d => { d with stack := a :: d.stack }

def octave : Steps (Option Style) := do
  let _ ← takeWhile isDigit
  return some .note

def note (raised : Bool) : Steps (Option Style) :=
  if raised then do
    let _ ← takeIf (· == sharpMark)
    octave
  else octave

def number : Steps (Option Style) := do
  let _ ← takeWhile isDigit
  return some .number

def fraction : Steps (Option Style) := do
  let _ ← takeWhile isDigit
  if ← takeIf (· == fractionMark) then number
  else return some .number

/-- A word is looked up as it stands in the line from the place `begun`. -/
def word (rules : Rules) (begun : Int) : Steps (Option Style) := do
  let _ ← takeWhile isWordPart
  let c := (← get).cursor
  return wordStyle rules (Index.slice c.line begun c.place)

/-- Whether a rule begins with `x`: those of notes and of signed numbers look at what is ahead. -/
def begins (p : Char → Bool) (x : Char) (second : Char → Bool) : Steps Bool :=
  if p x then isAhead second else pure false

/-- The rules that begin with `x`, which was taken from the place `begun`. -/
def classify (rules : Rules) (begun : Int) (x : Char) : Steps (Option Style) := do
  if isPunctuation x then return some .punctuation
  else if x = escapeMark then
    let _ ← take
    return none
  else if isQuote x then
    push (.quotedBy x rules.literalStyle)
    literal
  else if x = commentMark then
    toEnd
    return some .comment
  else if ← begins isNoteName x fun y => y == sharpMark || isDigit y then
    note (rules.lenient || hasSharp x)
  else if ← begins isSign x isDigit then number
  else if isDigit x then fraction
  else word rules begun

def lexeme (rules : Rules) : Steps (Option Style) := do
  if ← takeWhile isSpace then return none
  else
    let begun := (← get).cursor.place
    match ← take with
    | none => return none
    | some x => classify rules begun x

/-- **One reading, step by step.** -/
def read (rules : Rules) : Steps (Option Style) := do
  let d ← get
  if d.cursor.atEnd then return none
  else if d.stack.isEmpty then lexeme rules
  else literal

/-! ### What steps come to -/

/-- Where `t` is ahead, the program takes `n` characters of it and gives `a`. -/
def Gives {α : Type} (m : Steps α) (t : Text) (a : α) (n : Nat) : Prop :=
  n ≤ t.length ∧ ∀ (c : Cursor) (stack : Stack), Ahead c t →
    m ⟨c, stack⟩ = .ok a ⟨c.advance n, stack⟩

variable {α β : Type}

theorem gives_pure (a : α) (t : Text) : Gives (pure a) t a 0 :=
  ⟨Nat.zero_le _, fun c stack _ => by rw [advance_zero]; rfl⟩

theorem bind_eq {m : Steps α} {d d' : Desk} {a : α} (h : m d = .ok a d') (next : α → Steps β) :
    (m >>= next) d = next a d' := by
  simp only [Bind.bind, EStateM.bind, h]

theorem Gives.bind {m : Steps α} {next : α → Steps β} {t : Text} {a : α} {b : β} {n k : Nat}
    (hm : Gives m t a n) (hnext : Gives (next a) (t.drop n) b k) :
    Gives (m >>= next) t b (n + k) := by
  obtain ⟨hn, hm⟩ := hm
  obtain ⟨hk, hnext⟩ := hnext
  rw [List.length_drop] at hk
  refine ⟨by omega, fun c stack h => ?_⟩
  rw [bind_eq (hm c stack h), hnext _ stack (h.advance hn), advance_add]

theorem Gives.bind_zero {m : Steps α} {next : α → Steps β} {t : Text} {a : α} {b : β} {k : Nat}
    (hm : Gives m t a 0) (hnext : Gives (next a) t b k) : Gives (m >>= next) t b k := by
  have hdrop : Gives (next a) (t.drop 0) b k := by rwa [List.drop_zero]
  have h := hm.bind hdrop
  rwa [Nat.zero_add] at h

theorem Gives.answer {m : Steps α} {next : α → Steps β} {t : Text} {a : α} {b : β} {n : Nat}
    (hm : Gives m t a n) (hnext : next a = pure b) : Gives (m >>= next) t b n :=
  hm.bind (k := 0) (hnext ▸ gives_pure b _)

theorem get_eq (d : Desk) : (get : Steps Desk) d = .ok d d := rfl

theorem gives_look (t : Text) : Gives look t t.head? 0 := by
  refine ⟨Nat.zero_le _, fun c stack h => ?_⟩
  rw [advance_zero, look, bind_eq (get_eq _)]
  cases t with
  | nil => simp only [h.atEnd_nil]; rfl
  | cons x t => simp only [h.atEnd_cons, h.get?]; rfl

theorem gives_moveOn (x : Char) (t : Text) : Gives moveOn (x :: t) () 1 :=
  ⟨by simp, fun c stack _ => rfl⟩

theorem gives_take_nil : Gives take [] none 0 := (gives_look []).answer rfl

theorem gives_take_cons (x : Char) (t : Text) : Gives take (x :: t) (some x) 1 :=
  (gives_look (x :: t)).bind_zero ((gives_moveOn x t).answer rfl)

theorem gives_takeIf (p : Char → Bool) (t : Text) :
    Gives (takeIf p) t (t.head?.any p) (if t.head?.any p then 1 else 0) := by
  refine (gives_look t).bind_zero ?_
  cases t with
  | nil => exact gives_pure false []
  | cons x t =>
    by_cases hx : p x = true
    · simp only [List.head?_cons, Option.any_some, hx, if_true]
      exact (gives_moveOn x t).answer rfl
    · simp only [List.head?_cons, Option.any_some, hx, Bool.false_eq_true, if_false]
      exact gives_pure false (x :: t)

theorem passWhile_eq {p : Char → Bool} {c : Cursor} {t : Text} (stack : Stack) (h : Ahead c t) :
    passWhile p stack c = .ok () ⟨c.advance (Text.runLength p t), stack⟩ := by
  induction t generalizing c with
  | nil => rw [passWhile, dif_pos h.atEnd_nil, Text.runLength_nil, advance_zero]
  | cons x t ih =>
    rw [passWhile, dif_neg (by simp [h.atEnd_cons]), h.get?, Text.runLength_cons]
    by_cases hx : p x = true
    · rw [if_pos hx, Nat.add_comm, ← advance_add, ← ih h.next]
      simp only [hx, if_true]
    · rw [if_neg hx, advance_zero]
      simp only [hx, Bool.false_eq_true, if_false]

theorem gives_passAll (p : Char → Bool) (t : Text) : Gives (passAll p) t () (Text.runLength p t) :=
  ⟨Text.runLength_le p t, fun _ stack h => passWhile_eq stack h⟩

theorem gives_takeWhile (p : Char → Bool) (t : Text) :
    Gives (takeWhile p) t (decide (0 < Text.runLength p t)) (Text.runLength p t) := by
  refine ⟨Text.runLength_le p t, fun c stack h => ?_⟩
  rw [takeWhile, bind_eq (get_eq _), bind_eq ((gives_passAll p t).2 c stack h), bind_eq (get_eq _)]
  have hmoved : c.place < (c.advance (Text.runLength p t)).place ↔ 0 < Text.runLength p t := by
    simp only [advance]
    omega
  simp only [hmoved]
  rfl

theorem gives_toEnd (t : Text) : Gives toEnd t () t.length :=
  ⟨Nat.le_refl _, fun c stack h => by rw [← h.toEnd_eq]; rfl⟩

theorem gives_rest (t : Text) :
    Gives (do toEnd; return some Style.comment) t (some .comment) t.length :=
  (gives_toEnd t).answer rfl

theorem gives_isAhead (p : Char → Bool) (t : Text) : Gives (isAhead p) t (t.head?.any p) 0 :=
  (gives_look t).answer rfl

/-! ### The rules -/

theorem gives_number (t : Text) : Gives number t (some .number) (Lexeme.digits t) :=
  (gives_takeWhile isDigit t).answer rfl

theorem gives_octave (t : Text) : Gives octave t (some .note) (Lexeme.digits t) :=
  (gives_takeWhile isDigit t).answer rfl

theorem gives_takeIf_cons {p : Char → Bool} {x : Char} (t : Text) (h : p x = true) :
    Gives (takeIf p) (x :: t) true 1 := by
  simpa [h] using gives_takeIf p (x :: t)

theorem gives_takeIf_of_not {p : Char → Bool} {t : Text} (h : t.head?.any p = false) :
    Gives (takeIf p) t false 0 := by
  simpa [h] using gives_takeIf p t

theorem gives_fraction (t : Text) :
    Gives fraction t (some .number)
      (Lexeme.digits t + Lexeme.fractionTail (t.drop (Lexeme.digits t))) := by
  refine (gives_takeWhile isDigit t).bind ?_
  show Gives _ (t.drop (Lexeme.digits t)) _ _
  cases t.drop (Lexeme.digits t) with
  | nil => exact (gives_takeIf_of_not rfl).bind_zero (gives_pure (some Style.number) [])
  | cons x rest =>
    rw [Lexeme.fractionTail]
    by_cases hx : x = fractionMark
    · rw [if_pos hx, Nat.add_comm]
      exact (gives_takeIf_cons rest (by simpa using hx)).bind (gives_number rest)
    · rw [if_neg hx]
      exact (gives_takeIf_of_not (by simpa using hx)).bind_zero (gives_pure (some Style.number) _)

theorem gives_note (lenient : Bool) (letter : Char) (t : Text) :
    Gives (note (lenient || hasSharp letter)) t (some .note)
      (Lexeme.noteTail lenient letter t) := by
  cases hraised : lenient || hasSharp letter with
  | false =>
    have htail : Lexeme.noteTail lenient letter t = Lexeme.digits t := by
      cases t with
      | nil => rfl
      | cons x t =>
        rw [Lexeme.noteTail, hraised]
        by_cases hx : x = sharpMark
        · rw [if_pos hx, if_neg Bool.false_ne_true, hx, Lexeme.digits, Text.runLength_cons,
            if_neg (by decide)]
        · rw [if_neg hx]
    rw [htail]
    exact gives_octave t
  | true =>
    cases t with
    | nil => exact (gives_takeIf_of_not rfl).bind_zero (gives_octave [])
    | cons x t =>
      rw [Lexeme.noteTail, hraised]
      by_cases hx : x = sharpMark
      · rw [if_pos hx, if_pos rfl, Nat.add_comm]
        exact (gives_takeIf_cons t (by simpa using hx)).bind (gives_octave t)
      · rw [if_neg hx]
        exact (gives_takeIf_of_not (by simpa using hx)).bind_zero (gives_octave _)

theorem passLiteral_eq {a : Literal} {outer : Stack} {c : Cursor} {t : Text} (h : Ahead c t) :
    passLiteral a outer c =
      .ok a.style ⟨c.advance (a.read outer t).length, (a.read outer t).stack⟩ := by
  induction t generalizing a outer c with
  | nil => rw [passLiteral, dif_pos h.atEnd_nil, Literal.read_nil, advance_zero]
  | cons x t ih =>
    rw [passLiteral, dif_neg (by simp [h.atEnd_cons]), h.get?, Literal.read_cons]
    dsimp only
    by_cases hcloses : a.closesAt x = true
    · rw [if_pos hcloses, if_pos hcloses]
    · rw [if_neg hcloses, if_neg hcloses]
      by_cases hopens : a.opensAt x = true
      · rw [if_pos hopens, if_pos hopens, ih h.next, advance_add, Nat.add_comm]
        rfl
      · rw [if_neg hopens, if_neg hopens, ih h.next, advance_add, Nat.add_comm]
        rfl

theorem gives_begins (p : Char → Bool) (x : Char) (second : Char → Bool) (t : Text) :
    Gives (begins p x second) t (p x && t.head?.any second) 0 := by
  unfold begins
  cases p x with
  | true => exact gives_isAhead second t
  | false => exact gives_pure false t

theorem gives_hidden (t : Text) :
    Gives (do let _ ← take; return (none : Option Style)) t none (min t.length 1) := by
  cases t with
  | nil => exact gives_take_nil.answer rfl
  | cons x t =>
    have hone : min (x :: t).length 1 = 1 := by simp
    rw [hone]
    exact (gives_take_cons x t).answer rfl

theorem pitchNext_eq (t : Text) :
    Lexeme.pitchNext t = t.head?.any fun y => y == sharpMark || isDigit y := by
  cases t <;> rfl

theorem digitNext_eq (t : Text) : Lexeme.digitNext t = t.head?.any isDigit := by
  cases t <;> rfl

/-- A program that goes on behind a character that was taken. -/
theorem Gives.behind {m : Steps α} {x : Char} {t : Text} {a : α} {n : Nat} {c : Cursor}
    (hm : Gives m t a n) (h : Ahead c (x :: t)) (stack : Stack) :
    m ⟨c.advance 1, stack⟩ = .ok a ⟨c.advance (n + 1), stack⟩ := by
  rw [hm.2 _ stack h.next, advance_add, Nat.add_comm]

variable {rules : Rules}

theorem push_eq (a : Literal) (d : Desk) : push a d = .ok () ⟨d.cursor, a :: d.stack⟩ := rfl

/-- **The rules outside of literals**, behind the first character. -/
theorem classify_eq {c : Cursor} {x : Char} {t : Text} {reading : Reading}
    (h : Ahead c (x :: t)) (hspace : ¬ isSpace x = true)
    (hread : c.read? rules [] = some reading) :
    classify rules c.place x ⟨c.advance 1, []⟩ =
      .ok reading.style ⟨c.advance reading.length, reading.stack⟩ := by
  rw [read?_outside h, Lexeme.read, if_neg hspace] at hread
  unfold classify
  by_cases hpunct : isPunctuation x = true
  · rw [if_pos hpunct] at hread ⊢
    cases hread
    exact (gives_pure _ t).behind h []
  rw [if_neg hpunct] at hread ⊢
  by_cases hescape : x = escapeMark
  · rw [if_pos hescape] at hread ⊢
    cases hread
    exact (gives_hidden t).behind h []
  rw [if_neg hescape] at hread ⊢
  by_cases hquote : isQuote x = true
  · rw [if_pos hquote] at hread ⊢
    cases hread
    rw [bind_eq (push_eq _ _)]
    refine (passLiteral_eq h.next).trans ?_
    rw [advance_add, Nat.add_comm]
    rfl
  rw [if_neg hquote] at hread ⊢
  by_cases hcomment : x = commentMark
  · rw [if_pos hcomment] at hread ⊢
    cases hread
    exact (gives_rest t).behind h []
  rw [if_neg hcomment] at hread ⊢
  have hnote := gives_begins isNoteName x (fun y => y == sharpMark || isDigit y) t
  rw [← pitchNext_eq] at hnote
  by_cases hpitch : (isNoteName x && Lexeme.pitchNext t) = true
  · rw [if_pos hpitch] at hread
    rw [hpitch] at hnote
    cases hread
    exact (hnote.bind_zero (gives_note rules.lenient x t)).behind h []
  rw [if_neg hpitch] at hread
  rw [Bool.eq_false_iff.mpr hpitch] at hnote
  rw [bind_eq (hnote.2 _ [] h.next), if_neg Bool.false_ne_true, advance_zero]
  have hsign := gives_begins isSign x isDigit t
  rw [← digitNext_eq] at hsign
  by_cases hsigned : (isSign x && Lexeme.digitNext t) = true
  · rw [if_pos hsigned] at hread
    rw [hsigned] at hsign
    cases hread
    exact (hsign.bind_zero (gives_number t)).behind h []
  rw [if_neg hsigned] at hread
  rw [Bool.eq_false_iff.mpr hsigned] at hsign
  rw [bind_eq (hsign.2 _ [] h.next), if_neg Bool.false_ne_true, advance_zero]
  by_cases hdigit : isDigit x = true
  · rw [if_pos hdigit] at hread ⊢
    cases hread
    exact (gives_fraction t).behind h []
  rw [if_neg hdigit] at hread ⊢
  cases hread
  rw [word, bind_eq ((gives_takeWhile isWordPart t).behind h []), bind_eq (get_eq _)]
  rfl

/-! ### Readings -/

theorem lexeme_eq {c : Cursor} {x : Char} {t : Text} {reading : Reading} (h : Ahead c (x :: t))
    (hread : c.read? rules [] = some reading) :
    lexeme rules ⟨c, []⟩ = .ok reading.style ⟨c.advance reading.length, reading.stack⟩ := by
  have hblank := (gives_takeWhile isSpace (x :: t)).2 c [] h
  rw [lexeme, bind_eq hblank, Text.runLength_cons]
  by_cases hspace : isSpace x = true
  · rw [read?_outside h, Lexeme.read, if_pos hspace] at hread
    cases hread
    rw [if_pos hspace, if_pos (by simp)]
    rfl
  · rw [if_neg hspace, if_neg (by simp), advance_zero, bind_eq (get_eq _),
      bind_eq ((gives_take_cons x t).2 c [] h)]
    exact classify_eq h hspace hread

/-- **Step by step a reading comes to the same**, wherever something can be read. -/
theorem read_eq {c : Cursor} {stack : Stack} {x : Char} {t : Text} {reading : Reading}
    (h : Ahead c (x :: t)) (hread : c.read? rules stack = some reading) :
    read rules ⟨c, stack⟩ = .ok reading.style ⟨c.advance reading.length, reading.stack⟩ := by
  rw [read, bind_eq (get_eq _)]
  simp only [h.atEnd_cons, Bool.false_eq_true, if_false]
  cases stack with
  | nil => exact lexeme_eq h hread
  | cons a outer =>
    rw [read?_inside h a outer] at hread
    cases hread
    exact passLiteral_eq h

theorem read_atEnd {c : Cursor} (h : c.atEnd = true) (stack : Stack) :
    read rules ⟨c, stack⟩ = .ok none ⟨c, stack⟩ := by
  rw [read, bind_eq (get_eq _)]
  simp only [h, if_true]
  rfl

theorem passWhile_error {p : Char → Bool} {c : Cursor} (stack : Stack)
    (h : c.place < -c.line.length) :
    passWhile p stack c = .error (unreadable c) ⟨c, stack⟩ := by
  have hend : ¬ c.atEnd = true := by
    rw [atEnd_iff]
    omega
  rw [passWhile, dif_neg hend, get?_eq_none_of_lt h]

theorem passLiteral_error {a : Literal} {outer : Stack} {c : Cursor}
    (h : c.place < -c.line.length) :
    passLiteral a outer c = .error (unreadable c) ⟨c, a :: outer⟩ := by
  have hend : ¬ c.atEnd = true := by
    rw [atEnd_iff]
    omega
  rw [passLiteral, dif_neg hend, get?_eq_none_of_lt h]

theorem bind_error {m : Steps α} {d d' : Desk} {e : Text} (h : m d = .error e d')
    (next : α → Steps β) : (m >>= next) d = .error e d' := by
  simp only [Bind.bind, EStateM.bind, h]

/-- **Before the beginning of the line** the first step fails, and nothing was done. -/
theorem read_error {c : Cursor} (stack : Stack) (h : c.place < -c.line.length) :
    read rules ⟨c, stack⟩ = .error (unreadable c) ⟨c, stack⟩ := by
  have hend : c.atEnd = false := by
    rw [← Bool.not_eq_true, atEnd_iff]
    omega
  rw [read, bind_eq (get_eq _)]
  simp only [hend, Bool.false_eq_true, if_false]
  cases stack with
  | nil =>
    have hspace : takeWhile isSpace ⟨c, []⟩ = .error (unreadable c) ⟨c, []⟩ := by
      rw [takeWhile, bind_eq (get_eq _)]
      exact bind_error (passWhile_error [] h) _
    exact bind_error hspace _
  | cons a outer => exact passLiteral_error h

end Steps

namespace Desk

theorem perform_of_read? {d : Desk} {reading : Reading}
    (h : d.cursor.read? rules d.stack = some reading) :
    d.perform (.read rules) =
      some (.style reading.style, ⟨d.cursor.advance reading.length, reading.stack⟩) := by
  rw [perform, Desk.read, h]
  rfl

theorem perform_of_rest?_none (rules : Rules) {d : Desk} (h : d.cursor.rest? = none) :
    d.perform (.read rules) = none := by
  rw [perform, Desk.read, read?, h]
  rfl

/-- **A reading at any place.**  Behind the end there is nothing to read and nothing changes.
Counted from either end within the line a reading succeeds and gets on, but not beyond the end.
Before the beginning it fails, already at its first step, so nothing has changed.  That is so
for the action of a host, and for the same reading made of single steps. -/
theorem read_at_any_place (config : Config) (d : Desk) :
    let length : Int := d.cursor.line.length
    let place := d.cursor.place
    let stepwise := Steps.read config.rules d
    (length ≤ place →
      d.perform (.read config.rules) = some (.style none, d) ∧ stepwise = .ok none d) ∧
    (-length ≤ place → place < length →
      ∃ style further next, place < further ∧ further ≤ length ∧
        d.perform (.read config.rules) =
          some (.style style, ⟨{ d.cursor with place := further }, next⟩) ∧
        stepwise = .ok style ⟨{ d.cursor with place := further }, next⟩) ∧
    (place < -length →
      d.perform (.read config.rules) = none ∧ d.after (.read config.rules) = d ∧
        stepwise = .error (unreadable d.cursor) d) := by
  intro length place stepwise
  refine ⟨fun hend => ?_, fun hbegin hend => ?_, fun hbegin => ?_⟩
  · have hatEnd := atEnd_iff.mpr hend
    have hread := perform_of_read? (read?_atEnd config.rules hatEnd d.stack)
    rw [advance_zero] at hread
    exact ⟨hread, Steps.read_atEnd hatEnd d.stack⟩
  · obtain ⟨t, h⟩ := exists_ahead hbegin (Int.le_of_lt hend)
    have hplace := h.place_add
    cases t with
    | nil =>
      simp only [List.length_nil] at hplace
      omega
    | cons x t =>
      obtain ⟨reading, hread, hpos, hle⟩ := h.bounds config.rules d.stack
      refine ⟨reading.style, place + reading.length, reading.stack, ?_, ?_,
        perform_of_read? hread, Steps.read_eq h hread⟩
      · omega
      · omega
  · have hnone := perform_of_rest?_none config.rules (rest?_eq_none_iff.mpr hbegin)
    refine ⟨hnone, ?_, Steps.read_error d.stack hbegin⟩
    rw [after, hnone]

/-- Behind the end, at the last character, from which a word goes on through the beginning of the
line, and before the beginning. -/
theorem readings_from_either_end :
    let desk (place : Int) : Desk := ⟨⟨"c4 x".toList, place, 7⟩, []⟩
    let read := Action.read Config.default.rules
    (desk 4).perform read = some (.style none, desk 4) ∧
      (∃ style further next, -1 < further ∧ further ≤ 4 ∧
        (desk (-1)).perform read = some (.style style, ⟨⟨"c4 x".toList, further, 7⟩, next⟩)) ∧
      (desk (-5)).perform read = none ∧
      Steps.read Config.default.rules (desk (-5)) =
        .error (unreadable (desk (-5)).cursor) (desk (-5)) := by
  intro desk read
  have hend := (read_at_any_place .default (desk 4)).1 (by decide)
  obtain ⟨style, further, next, hfurther, hle, hread, -⟩ :=
    (read_at_any_place .default (desk (-1))).2.1 (by decide) (by decide)
  have hbegin := (read_at_any_place .default (desk (-5))).2.2 (by decide)
  exact ⟨hend.1, ⟨style, further, next, hfurther, hle, hread⟩, hbegin.1, hbegin.2.2⟩

example :
    (Desk.perform ⟨⟨"c4 x".toList, -1, 7⟩, []⟩ (.read Config.default.rules)).map (·.2.cursor) =
      some ⟨"c4 x".toList, 2, 7⟩ := by decide

end Desk

end ChipHighlight.Cursor
