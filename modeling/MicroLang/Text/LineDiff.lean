/-!
# Differences between texts

The difference between two lists of lines in unified form: hunks of removed and added lines with up
to three common lines around them. Common lines are matched by taking the longest common block, the
earliest in the first list and then in the second if there are several, and then matching what is
left of it and what is right of it in the same way.
-/

namespace MicroLang.Text.LineDiff

/-- A common block: where it starts in either list, and its length. -/
structure Block where
  left : Nat
  right : Nat
  size : Nat

/-- The number of lines at the front that two lists have in common. -/
def commonFront : List String → List String → Nat
  | x :: xs, y :: ys => if x = y then commonFront xs ys + 1 else 0
  | _, _ => 0

/-- Common lines at the front do not exceed the first list. -/
theorem commonFront_le (xs ys : List String) : commonFront xs ys ≤ xs.length := by
  fun_induction commonFront xs ys <;> simp_all

/-- The best of `best` and the blocks that start at the front of `xs` and at `j` or later in the
second list, of which `ys` is what is left. -/
def bestInRow (xs : List String) (i : Nat) (best : Block) (j : Nat) : List String → Block
  | [] => best
  | y :: ys =>
    let size := commonFront xs (y :: ys)
    bestInRow xs i (if best.size < size then ⟨i, j, size⟩ else best) (j + 1) ys

/-- The best of `best` and the blocks that start at `i` or later in the first list, of which `xs` is
what is left. -/
def bestFrom (ys : List String) (best : Block) (i : Nat) : List String → Block
  | [] => best
  | x :: xs => bestFrom ys (bestInRow (x :: xs) i best 0 ys) (i + 1) xs

/-- The longest common block. -/
def longest (xs ys : List String) : Block :=
  bestFrom ys ⟨0, 0, 0⟩ 0 xs

/-- A best block of a row ends within the first list, which has `n` lines. -/
theorem bestInRow_le {xs ys : List String} {i j n : Nat} {best : Block}
    (hn : i + xs.length = n) (hbest : best.left + best.size ≤ n) :
    (bestInRow xs i best j ys).left + (bestInRow xs i best j ys).size ≤ n := by
  induction ys generalizing best j with
  | nil => exact hbest
  | cons y ys ih =>
    apply ih
    have := commonFront_le xs (y :: ys)
    split
    · simp only
      omega
    · exact hbest

/-- A best block ends within the first list, which has `n` lines. -/
theorem bestFrom_le {xs ys : List String} {i n : Nat} {best : Block}
    (hn : i + xs.length = n) (hbest : best.left + best.size ≤ n) :
    (bestFrom ys best i xs).left + (bestFrom ys best i xs).size ≤ n := by
  induction xs generalizing best i with
  | nil => exact hbest
  | cons x xs ih =>
    apply ih
    · simp only [List.length_cons] at hn
      omega
    · exact bestInRow_le hn hbest

/-- The longest common block ends within the first list. -/
theorem longest_le (xs ys : List String) :
    (longest xs ys).left + (longest xs ys).size ≤ xs.length :=
  bestFrom_le (Nat.zero_add _) (Nat.zero_le _)

/-- All common blocks of two lists that start at the given places, in order. -/
def blocks (i j : Nat) (xs ys : List String) : List Block :=
  let block := longest xs ys
  if _ : 0 < (longest xs ys).size then
    blocks i j (xs.take block.left) (ys.take block.right)
      ++ ⟨i + block.left, j + block.right, block.size⟩ ::
        blocks (i + block.left + block.size) (j + block.right + block.size)
          (xs.drop (block.left + block.size)) (ys.drop (block.right + block.size))
  else []
termination_by xs.length
decreasing_by
  all_goals have := longest_le xs ys
  · simp only [List.length_take]
    omega
  · simp only [List.length_drop]
    omega

/-- A stretch of either list: common lines, or lines of the first that give way to lines of the
second. -/
structure Stretch where
  common : Bool
  left : Nat
  leftEnd : Nat
  right : Nat
  rightEnd : Nat

/-- The stretches from the given places to the ends, around the given blocks. -/
def stretches (i j leftEnd rightEnd : Nat) : List Block → List Stretch
  | [] => if i < leftEnd || j < rightEnd then [⟨false, i, leftEnd, j, rightEnd⟩] else []
  | block :: rest =>
    let gap :=
      if i < block.left || j < block.right then [⟨false, i, block.left, j, block.right⟩] else []
    let left := block.left + block.size
    let right := block.right + block.size
    gap ++ ⟨true, block.left, left, block.right, right⟩
      :: stretches left right leftEnd rightEnd rest

/-- The number of common lines shown around changes. -/
def context : Nat := 3

/-- The end of a common stretch, before a change. -/
def Stretch.tail (s : Stretch) : Stretch :=
  if s.common then
    { s with left := max s.left (s.leftEnd - context), right := max s.right (s.rightEnd - context) }
  else s

/-- The beginning of a common stretch, after a change. -/
def Stretch.front (s : Stretch) : Stretch :=
  if s.common then
    { s with
      leftEnd := min s.leftEnd (s.left + context)
      rightEnd := min s.rightEnd (s.right + context) }
  else s

/-- Shortens the common stretches at the two ends. -/
def trimEnds (ss : List Stretch) : List Stretch :=
  let ss := match ss with
    | [] => []
    | s :: rest => s.tail :: rest
  match ss.getLast? with
  | none => []
  | some s => ss.dropLast ++ [s.front]

/-- Cuts stretches into hunks at common stretches that are longer than the context on both sides. -/
def hunks (hunk : List Stretch) : List Stretch → List (List Stretch)
  | [] => [hunk]
  | s :: rest =>
    if s.common && 2 * context < s.leftEnd - s.left then
      (hunk ++ [s.front]) :: hunks [s.tail] rest
    else hunks (hunk ++ [s]) rest

/-- The place of lines in a hunk's head: the first line and, unless it is one, their number. No
lines stand after the line before them. -/
def span (start stop : Nat) : String :=
  if stop - start = 1 then toString (start + 1)
  else if stop - start = 0 then s!"{start},0"
  else s!"{start + 1},{stop - start}"

/-- The lines of a list from one place to another. -/
def slice (xs : List String) (start stop : Nat) : List String :=
  (xs.drop start).take (stop - start)

/-- The lines that show a stretch. -/
def Stretch.lines (xs ys : List String) (s : Stretch) : List String :=
  if s.common then (slice xs s.left s.leftEnd).map (" " ++ ·)
  else (slice xs s.left s.leftEnd).map ("-" ++ ·) ++ (slice ys s.right s.rightEnd).map ("+" ++ ·)

/-- The lines that show a hunk, its head first. -/
def hunkLines (xs ys : List String) (hunk : List Stretch) : List String :=
  match hunk.head?, hunk.getLast? with
  | some first, some last =>
    let left := span first.left last.leftEnd
    let right := span first.right last.rightEnd
    ("@@ -" ++ left ++ " +" ++ right ++ " @@") :: hunk.flatMap (Stretch.lines xs ys)
  | _, _ => []

/-- The lines that show the difference of two lists with the given names; none if they are equal. -/
def unified (leftName rightName : String) (xs ys : List String) : List String :=
  let ss := stretches 0 0 xs.length ys.length (blocks 0 0 xs ys)
  let shown := (hunks [] (trimEnds ss)).filter fun hunk => hunk.any fun s => !s.common
  if shown.isEmpty then []
  else ("--- " ++ leftName) :: ("+++ " ++ rightName) :: shown.flatMap (hunkLines xs ys)

end MicroLang.Text.LineDiff
