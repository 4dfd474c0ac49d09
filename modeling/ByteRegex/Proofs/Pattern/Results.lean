import ByteRegex.Proofs.Pattern.Classes

/-!
# What comes of the rest of a text

`Draft.result` is what the reader comes to if it goes on from a draft to the end
of a text. The place where it goes on is told by the size of the whole text and by
what is left of it, so a phrase that is read leaves the result as it is, however
long the phrase may be.
-/

namespace ByteRegex

namespace Draft

/-- What comes of a text of `size` bytes if `bytes` are left of it. -/
def result (d : Draft) (size : Nat) (bytes : List UInt8) :
    Except PatternError (List Item × Nat) :=
  match d.feed (size - bytes.length) bytes with
  | .error e => .error e
  | .ok read =>
    match read.finish with
    | .error e => .error e
    | .ok items => .ok (items, read.groups)

theorem result_of_feed {d d' : Draft} {size offset : Nat} {bytes rest : List UInt8}
    (hfeed : d.feed (size - bytes.length) bytes = d'.feed offset rest)
    (hoffset : offset + rest.length = size) : d.result size bytes = d'.result size rest := by
  obtain rfl : offset = size - rest.length := by omega
  unfold result
  rw [hfeed]

/-- A single byte is read. -/
theorem result_of_feed_cons {d d' : Draft} {size : Nat} {b : UInt8} {rest : List UInt8}
    (hsize : rest.length < size)
    (hfeed : ∀ offset, d.feed offset (b :: rest) = d'.feed (offset + 1) rest) :
    d.result size (b :: rest) = d'.result size rest := by
  refine result_of_feed (hfeed _) ?_
  rw [List.length_cons]
  omega

section Plain

variable {d : Draft} {size : Nat} (hplain : d.phase = .plain)
include hplain

/-- At the end of a text only a parenthesis can be left open. -/
theorem result_nil : d.result size [] =
    match d.enclosing with
    | g :: _ => .error (.unbalancedGroup g.opened)
    | [] => .ok (d.items.reverse, d.groups) := by
  unfold result finish
  cases henclosing : d.enclosing <;> simp [hplain, henclosing]

/-- Outside groups there is nothing to close or to go on with. -/
theorem result_unbalanced (houter : d.enclosing = []) {b : UInt8}
    (h : Sign.ofByte b = .closeGroup ∨ Sign.ofByte b = .bar) (rest : List UInt8) :
    d.result size (b :: rest) = .error (.unbalancedGroup (size - (b :: rest).length)) := by
  have hstep : ∀ offset isLast, d.step offset b isLast = .error (.unbalancedGroup offset) := by
    intro offset isLast
    rcases h with h | h
    · simp [step, hplain, h, closeGroup?, houter]
    · simp [step, hplain, h, nextBranch?, houter]
  unfold result
  rw [feed_of_step_error (hstep _)]

theorem result_openGroup {rest : List UInt8} (hsize : rest.length < size) :
    d.result size ('('.toUInt8 :: rest) =
      (d.openGroup (size - ('('.toUInt8 :: rest).length)).result size rest := by
  refine result_of_feed (feed_openGroup hplain _ rest) ?_
  rw [List.length_cons]
  omega

/-- A backslash at the very end of a text is a literal. -/
theorem result_backslash_last :
    d.result size ['\\'.toUInt8] = (d.push (.byte '\\'.toUInt8)).result size [] := by
  unfold result
  rw [feed_backslash hplain]
  cases henclosing : d.enclosing <;> simp [finish, push, henclosing]

theorem result_escape {b : UInt8} {rest : List UInt8} (hsize : rest.length + 1 < size) :
    d.result size ('\\'.toUInt8 :: b :: rest) = (d.push (.ofEscaped b)).result size rest := by
  refine result_of_feed (feed_escape hplain _ b rest) ?_
  simp only [List.length_cons]
  omega

theorem result_class {written : List UInt8} {negated : Bool} (hclass : ClassBytes written negated)
    {bytes behind : List UInt8} (hsize : bytes.length < size)
    (hbytes : bytes =
      (if negated then ['^'.toUInt8] else []) ++ written ++ ']'.toUInt8 :: behind) :
    d.result size ('['.toUInt8 :: bytes) =
      (d.push (.oneOf written negated)).result size behind := by
  subst hbytes
  refine result_of_feed (feed_class hplain hclass _ behind) ?_
  simp only [List.length_cons, List.length_append] at hsize ⊢
  cases negated <;> simp at hsize ⊢ <;> omega

theorem result_unterminated {bytes : List UInt8} (hopen : ']'.toUInt8 ∉ skipCaret bytes) :
    d.result size ('['.toUInt8 :: bytes) =
      .error (.unterminatedClass (size - ('['.toUInt8 :: bytes).length)) := by
  obtain ⟨d', hfeed, hfinish⟩ :=
    feed_unterminated hplain hopen (size - ('['.toUInt8 :: bytes).length)
  unfold result
  rw [hfeed]
  dsimp only
  rw [hfinish]

end Plain

end Draft

/-- The reader begins with nothing read. -/
theorem Pattern.readFrom_eq_result (matchStart : Bool) (size : Nat) (body : List UInt8) :
    readFrom matchStart (size - body.length) body =
      match ({} : Draft).result size body with
      | .error e => .error e
      | .ok (items, groups) => .ok { matchStart, items, groups } := by
  unfold readFrom Draft.result
  cases ({} : Draft).feed (size - body.length) body with
  | error e => rfl
  | ok d => cases hfinish : d.finish <;> simp [hfinish]

/-- A whole text is read from behind the `^` that may tie it to the start of the
line; offsets count the bytes of the whole text. -/
theorem Pattern.ofBytes_eq_result {bytes : List UInt8} (hbytes : bytes ≠ []) :
    ofBytes bytes =
      match ({} : Draft).result bytes.length (skipCaret bytes) with
      | .error e => .error e
      | .ok (items, groups) =>
        .ok { matchStart := bytes.head? = some '^'.toUInt8, items, groups } := by
  cases bytes with
  | nil => exact absurd rfl hbytes
  | cons b rest =>
      have hbehind := readFrom_eq_result true (b :: rest).length rest
      have hwhole := readFrom_eq_result false (b :: rest).length (b :: rest)
      rw [List.length_cons, Nat.add_sub_cancel_left] at hbehind
      rw [Nat.sub_self] at hwhole
      rw [ofBytes_cons, skipCaret]
      by_cases hcaret : b = '^'.toUInt8
      · simpa [hcaret] using hbehind
      · simpa [hcaret] using hwhole

end ByteRegex
