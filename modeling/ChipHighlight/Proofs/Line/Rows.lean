import ChipHighlight.Line

/-!
# The rows of a document read from its first line

`Mode.rows` reads a whole document.  What is open behind some lines is `Mode.carry`, and
it depends on their texts only.  So the rows of a part of a document are those of the
part alone, begun with what is open in front of it,

    rows (a ++ b) = rows a ++ rows b from carry a    (`rows_append`).
-/

namespace ChipHighlight

namespace Mode

def carry (mode : Mode) (rules : Rules) (stack : Stack) (lines : List Text) : Stack :=
  lines.foldl (fun stack line => Span.stackAfter stack (mode.spans rules stack [] line)) stack

variable (mode : Mode) (rules : Rules) (keepGaps : Bool)

theorem carry_cons (stack : Stack) (line : Text) (lines : List Text) :
    mode.carry rules stack (line :: lines) =
      mode.carry rules (Span.stackAfter stack (mode.spans rules stack [] line)) lines := rfl

theorem carry_append (stack : Stack) (lines more : List Text) :
    mode.carry rules stack (lines ++ more) =
      mode.carry rules (mode.carry rules stack lines) more := by
  rw [carry, List.foldl_append]
  rfl

theorem stack_row (number : Int) (stack : Stack) (line : Text) :
    (mode.row rules keepGaps number stack line).stack = mode.carry rules stack [line] := rfl

/-! ### Parts of a document -/

@[simp] theorem rows_nil (number : Int) (stack : Stack) :
    mode.rows rules keepGaps number stack [] = [] := rfl

theorem rows_cons (number : Int) (stack : Stack) (line : Text) (lines : List Text) :
    mode.rows rules keepGaps number stack (line :: lines) =
      mode.row rules keepGaps number stack line ::
        mode.rows rules keepGaps (number + 1) (mode.carry rules stack [line]) lines := rfl

@[simp] theorem length_rows (number : Int) (stack : Stack) (lines : List Text) :
    (mode.rows rules keepGaps number stack lines).length = lines.length := by
  induction lines generalizing number stack with
  | nil => rfl
  | cons line lines ih => rw [rows_cons, List.length_cons, ih, List.length_cons]

theorem stackAfter_rows (number : Int) (stack : Stack) (lines : List Text) :
    Row.stackAfter stack (mode.rows rules keepGaps number stack lines) =
      mode.carry rules stack lines := by
  induction lines generalizing number stack with
  | nil => rfl
  | cons line lines ih =>
    rw [rows_cons, Row.stackAfter, stack_row, ih, ← carry_append, List.singleton_append]

theorem rows_append (number : Int) (stack : Stack) (lines more : List Text) :
    mode.rows rules keepGaps number stack (lines ++ more) =
      mode.rows rules keepGaps number stack lines ++
        mode.rows rules keepGaps (number + lines.length) (mode.carry rules stack lines) more := by
  induction lines generalizing number stack with
  | nil => rw [List.nil_append, List.length_nil, Int.natCast_zero, Int.add_zero]; rfl
  | cons line lines ih =>
    rw [List.cons_append, rows_cons, rows_cons, ih, List.cons_append, ← carry_append,
      List.singleton_append, List.length_cons]
    congr 3
    omega

theorem rows_split (number : Int) (stack : Stack) (lines : List Text) (n : Nat) :
    mode.rows rules keepGaps number stack lines =
      mode.rows rules keepGaps number stack (lines.take n) ++
        mode.rows rules keepGaps (number + (lines.take n).length)
          (mode.carry rules stack (lines.take n)) (lines.drop n) := by
  rw [← rows_append, List.take_append_drop]

theorem take_rows (number : Int) (stack : Stack) (lines : List Text) (n : Nat) :
    (mode.rows rules keepGaps number stack lines).take n =
      mode.rows rules keepGaps number stack (lines.take n) := by
  induction n generalizing number stack lines with
  | zero => rfl
  | succ n ih =>
    cases lines with
    | nil => rfl
    | cons line lines => rw [rows_cons, List.take_succ_cons, ih, List.take_succ_cons, rows_cons]

theorem drop_rows (number : Int) (stack : Stack) (lines : List Text) (n : Nat) :
    (mode.rows rules keepGaps number stack lines).drop n =
      mode.rows rules keepGaps (number + n) (mode.carry rules stack (lines.take n))
        (lines.drop n) := by
  induction n generalizing number stack lines with
  | zero => rw [List.drop_zero, List.take_zero, Int.natCast_zero, Int.add_zero]; rfl
  | succ n ih =>
    cases lines with
    | nil => rfl
    | cons line lines =>
      rw [rows_cons, List.drop_succ_cons, ih, List.drop_succ_cons, List.take_succ_cons,
        ← carry_append, List.singleton_append]
      congr 1
      omega

theorem rows_getElem? (number : Int) (stack : Stack) (lines : List Text) {i : Nat}
    (h : i < lines.length) :
    (mode.rows rules keepGaps number stack lines)[i]? =
      some (mode.row rules keepGaps (number + i) (mode.carry rules stack (lines.take i))
        lines[i]) := by
  rw [← List.head?_drop, drop_rows, List.drop_eq_getElem_cons h, rows_cons, List.head?_cons]

theorem carry_take_succ (stack : Stack) {lines : List Text} {i : Nat} (h : i < lines.length) :
    mode.carry rules stack (lines.take (i + 1)) =
      mode.carry rules (mode.carry rules stack (lines.take i)) [lines[i]] := by
  rw [List.take_succ_eq_append_getElem h, carry_append]

end Mode

end ChipHighlight
