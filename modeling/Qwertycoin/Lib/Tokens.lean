import Mathlib

/-!
Text as a list of characters, cut into tokens. `trim` drops the blanks at both ends, as
`boost::algorithm::trim` does; `split` cuts at a separator with `token_compress_on`, so that a run
of separators cuts once (`boost::split`). Tokens joined by single separators, none empty or holding
a separator, split back into themselves (`split_intercalate`), and a text that starts and ends with
no blank is its own trim (`trim_of_ends`). A text written token by token, each followed by a
separator, is the tokens joined (`flatMap_append_sep`).
-/

namespace Tokens

variable {α : Type} [DecidableEq α]

/-- `boost::algorithm::trim` with the blanks `isSpace` picks: the text without the blanks in front
and behind. -/
def trim (isSpace : α → Bool) (s : List α) : List α :=
  ((s.dropWhile isSpace).reverse.dropWhile isSpace).reverse

/-- The loop of `boost::split` on one separator with `token_compress_on`: `token` is the piece read
so far, reversed, and `afterSeparator` whether a run of separators is going on, which the next
separator continues rather than cutting again. -/
def splitLoop (sep : α) : List α → List α → Bool → List (List α)
  | [], token, _ => [token.reverse]
  | c :: rest, token, afterSeparator =>
    if c = sep then
      if afterSeparator then splitLoop sep rest token true
      else token.reverse :: splitLoop sep rest [] true
    else splitLoop sep rest (c :: token) false

/-- `boost::split(result, s, is_any_of(sep), token_compress_on)`. -/
def split (sep : α) (s : List α) : List (List α) := splitLoop sep s [] false

section Split

variable {sep : α}

/-- A piece without separators goes onto the token being read. -/
theorem splitLoop_append (sep : α) :
    ∀ {w : List α}, (∀ c ∈ w, c ≠ sep) → ∀ (rest token : List α),
      splitLoop sep (w ++ rest) token false = splitLoop sep rest (w.reverse ++ token) false
  | [], _, rest, token => rfl
  | c :: w, noSep, rest, token => by
    rw [List.cons_append, splitLoop, if_neg (noSep c List.mem_cons_self),
      splitLoop_append sep (fun d member => noSep d (List.mem_cons_of_mem c member)),
      List.reverse_cons, List.append_assoc, List.singleton_append]

/-- After a run of separators, the next token starts as it would anywhere. -/
theorem splitLoop_true_of_ne {c : α} (notSep : c ≠ sep) (rest token : List α) :
    splitLoop sep (c :: rest) token true = splitLoop sep (c :: rest) token false := by
  rw [splitLoop, if_neg notSep, splitLoop, if_neg notSep]

omit [DecidableEq α] in
/-- Text joined from tokens starts with the first token's first element. -/
theorem exists_intercalate_eq_cons (c : α) (more : List α) :
    ∀ ws : List (List α), ∃ tail, [sep].intercalate ((c :: more) :: ws) = c :: tail
  | [] => ⟨more, List.intercalate_singleton⟩
  | w :: ws => ⟨more ++ [sep] ++ [sep].intercalate (w :: ws), by rw [List.intercalate_cons_cons]; rfl⟩

/-- Tokens joined by single separators, none empty or holding a separator, split back into
themselves. -/
theorem split_intercalate :
    ∀ (w : List α) (ws : List (List α)), (∀ t ∈ w :: ws, t ≠ [] ∧ ∀ c ∈ t, c ≠ sep) →
      split sep ([sep].intercalate (w :: ws)) = w :: ws
  | w, [], tokens => by
    -- One token: the loop reads it to the end.
    have noSep := (tokens w List.mem_cons_self).2
    rw [List.intercalate_singleton, split, ← List.append_nil w, splitLoop_append sep noSep,
      List.append_nil, List.append_nil]
    simp [splitLoop]
  | w, next :: ws, tokens => by
    -- The first token ends at the separator after it, and the rest splits on its own, since the
    -- next token starts with no separator.
    have noSep := (tokens w List.mem_cons_self).2
    have nextToken := tokens next (List.mem_cons_of_mem w List.mem_cons_self)
    have later := split_intercalate next ws fun t member => tokens t (List.mem_cons_of_mem w member)
    obtain ⟨c, more, rfl⟩ := List.exists_cons_of_ne_nil nextToken.1
    have notSep : c ≠ sep := nextToken.2 c List.mem_cons_self
    obtain ⟨tail, starts⟩ := exists_intercalate_eq_cons c more ws
    rw [split] at later
    rw [List.intercalate_cons_cons, split, List.append_assoc, splitLoop_append sep noSep,
      List.append_nil, List.singleton_append, splitLoop, if_pos rfl, if_neg Bool.false_ne_true,
      List.reverse_reverse, starts, splitLoop_true_of_ne notSep, ← starts, later]

end Split

/-! ### Writing tokens, and trimming -/

section Join

variable (sep : α)

omit [DecidableEq α] in
/-- Tokens each written with a separator after it are the tokens joined, with one more separator. -/
theorem flatMap_append_sep :
    ∀ (w : List α) (ws : List (List α)),
      (w :: ws).flatMap (· ++ [sep]) = [sep].intercalate (w :: ws) ++ [sep]
  | w, [] => by rw [List.intercalate_singleton, List.flatMap_cons, List.flatMap_nil, List.append_nil]
  | w, next :: ws => by
    rw [List.flatMap_cons, flatMap_append_sep next ws, List.intercalate_cons_cons]
    simp only [List.append_assoc]

omit [DecidableEq α] in
/-- One more token joins after a separator. -/
theorem intercalate_concat :
    ∀ (w : List α) (ws : List (List α)) (last : List α),
      [sep].intercalate (w :: ws ++ [last]) = [sep].intercalate (w :: ws) ++ sep :: last
  | w, [], last => by
    rw [List.cons_append, List.nil_append, List.intercalate_cons_cons, List.intercalate_singleton,
      List.intercalate_singleton, List.append_assoc, List.singleton_append]
  | w, next :: ws, last => by
    rw [List.cons_append, List.cons_append, List.intercalate_cons_cons, ← List.cons_append,
      intercalate_concat next ws last, List.intercalate_cons_cons]
    simp only [List.append_assoc]

omit [DecidableEq α] in
/-- Text joined from tokens starts where its first token does. -/
theorem head?_intercalate {w : List α} (nonempty : w ≠ []) :
    ∀ ws : List (List α), ([sep].intercalate (w :: ws)).head? = w.head?
  | [] => by rw [List.intercalate_singleton]
  | next :: ws => by
    rw [List.intercalate_cons_cons, List.append_assoc, List.head?_append_of_ne_nil _ nonempty]

omit [DecidableEq α] in
/-- Text joined from tokens ends where its last token does. -/
theorem getLast?_intercalate_concat {last : List α} (nonempty : last ≠ []) (w : List α)
    (ws : List (List α)) : ([sep].intercalate (w :: ws ++ [last])).getLast? = last.getLast? := by
  rw [intercalate_concat, List.getLast?_append_of_ne_nil _ (List.cons_ne_nil sep last),
    List.getLast?_cons]
  -- The last token has a last element, which the separator before it does not replace.
  obtain ⟨c, found⟩ := Option.isSome_iff_exists.mp (List.getLast?_isSome.mpr nonempty)
  rw [found]
  rfl

end Join

omit [DecidableEq α] in
/-- `dropWhile` drops nothing when the first element does not satisfy the test. -/
theorem dropWhile_of_head? {p : α → Bool} :
    ∀ {s : List α}, (∀ a ∈ s.head?, p a = false) → s.dropWhile p = s
  | [], _ => rfl
  | a :: _, front => List.dropWhile_cons_of_neg (by simp [front a rfl])

omit [DecidableEq α] in
/-- A text that starts and ends with no blank is its own trim. -/
theorem trim_of_ends {isSpace : α → Bool} {s : List α} (front : ∀ a ∈ s.head?, isSpace a = false)
    (back : ∀ a ∈ s.getLast?, isSpace a = false) : trim isSpace s = s := by
  have reversed : ∀ a ∈ s.reverse.head?, isSpace a = false := by
    rw [List.head?_reverse]
    exact back
  rw [trim, dropWhile_of_head? front, dropWhile_of_head? reversed, List.reverse_reverse]

end Tokens
