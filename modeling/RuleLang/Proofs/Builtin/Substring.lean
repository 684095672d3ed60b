import Mathlib
import RuleLang.Builtin.Table
import RuleLang.Proofs.Number.Truncation

/-!
# Parts of a text

The start and the length of a part are given as numbers of any kind, fractions, NaN and the infinities included. Each
is turned into a count of characters by itself. Together they never leave the text, and an offset splits a text
exactly in two. Counts have 64 bits, so they are exact for every text of fewer than `2 ^ 64` characters.
-/

namespace RuleLang

/-- How many of `size` characters a number stands for: none if it is NaN or not above zero, else its integer part, but
no more than there are. -/
def Number.offset (x : Float) (size : Nat) : Nat :=
  if x.isNaN ∨ x ≤ 0 then 0
  else
    match Number.integerPart? x with
    | some i => min i.toNat size
    | none => size

/-- A part that may end with the text is taken by its length. -/
theorem Text.extract_min_length (cs : List Char) (start count : Nat) :
    cs.extract start (min (start + count) cs.length) = (cs.drop start).take count := by
  have hlength : (cs.drop start).length = cs.length - start := List.length_drop
  rw [List.extract_eq_take_drop]
  by_cases h : start + count ≤ cs.length
  · rw [Nat.min_eq_left h, Nat.add_sub_cancel_left]
  · rw [Nat.min_eq_right (by omega), List.take_of_length_le (by omega), List.take_of_length_le (by omega)]

namespace Builtin

section Offsets

variable {builtin : String} {args : List Value} {size start stop : Nat}

theorem clamp_le (x : Float) (size : Nat) : clamp x size ≤ size :=
  Nat.min_le_right ..

theorem clamp_eq_offset (x : Float) (h : size < UInt64.size) : clamp x size = Number.offset x size := by
  unfold clamp Number.offset
  split
  · next hx => rw [Number.truncate_eq_zero hx, Nat.zero_min]
  · next hx =>
    cases hpart : Number.integerPart? x with
    | some i =>
      rw [Number.truncate_eq hpart]
      dsimp only
      omega
    | none =>
      rw [Number.truncate_eq_of_integerPart?_eq_none hx hpart]
      dsimp only
      omega

/-- Where bounds are set at all, they are in order and within the text. -/
theorem bounds_le (h : bounds builtin args size = .ok (start, stop)) : start ≤ stop ∧ stop ≤ size := by
  unfold bounds at h
  cases hx : numberAt builtin args 1 with
  | error e =>
    rw [hx] at h
    cases h
  | ok x =>
    have hstart := clamp_le x size
    rw [hx] at h
    cases hgiven : args[2]? with
    | none =>
      rw [hgiven] at h
      cases h
      omega
    | some v =>
      rw [hgiven] at h
      cases hy : numberAt builtin args 2 with
      | error e =>
        rw [hy] at h
        cases h
      | ok y =>
        rw [hy] at h
        cases h
        omega

end Offsets

section Parts

variable {m : Type → Type} [Monad m] [LawfulMonad m] [MonadExceptOf EvalError m] (call : Caller m)

/-- A part with a length. -/
theorem substr_call (v : Value) (x y : Float) :
    Builtin.substr.call call [v, .number x, .number y] = (pure (.string (String.ofList
      ((v.text.toList.drop (clamp x v.text.toList.length)).take (clamp y v.text.toList.length)))) : m Value) := by
  rw [← Text.extract_min_length]
  exact pure_bind _ _

/-- A part up to the end. -/
theorem substr_call_to_end (v : Value) (x : Float) :
    Builtin.substr.call call [v, .number x] =
      (pure (.string (String.ofList (v.text.toList.drop (clamp x v.text.toList.length)))) : m Value) := by
  have hend := Text.extract_min_length v.text.toList (clamp x v.text.toList.length)
    (v.text.toList.length - clamp x v.text.toList.length)
  rw [List.take_of_length_le (by rw [List.length_drop])] at hend
  rw [← hend]
  exact pure_bind _ _

theorem len_call (s : String) :
    Builtin.len.call call [.string s] = (pure (.number (Float.ofNat s.length)) : m Value) :=
  pure_bind _ _

/--
Each of the two numbers stands for a count of characters by itself: a part has the second count of characters, or as
many as there are, behind the first count of them. Where the part starts and where it stops is in order and within the
text, whatever the numbers are, and an offset splits the text in what ends and what starts there. The counts are exact
for every text of fewer than `2 ^ 64` characters.
-/
theorem substr_splits (v : Value) (x y : Float) :
    let cs := v.text.toList
    let n := cs.length
    (n < UInt64.size →
      Builtin.substr.call call [v, .number x, .number y] =
        (pure (.string (String.ofList ((cs.drop (Number.offset x n)).take (Number.offset y n)))) : m Value) ∧
      Builtin.substr.call call [v, .number x] =
        (pure (.string (String.ofList (cs.drop (Number.offset x n)))) : m Value) ∧
      (Builtin.substr.call call [v, .number x, .number y] >>= fun part => Builtin.len.call call [part]) =
        (pure (.number (Float.ofNat (Nat.min (Number.offset y n) (n - Number.offset x n)))) : m Value)) ∧
    (∀ args ∈ [[v, .number x, .number y], [v, .number x]],
      ∃ start stop, bounds Builtin.substr.name args n = .ok (start, stop) ∧ start ≤ stop ∧ stop ≤ n ∧
        Builtin.substr.call call args = (pure (.string (String.ofList (cs.extract start stop))) : m Value)) ∧
    ∃ before after, Builtin.substr.call call [v, .number 0, .number x] = (pure (.string before) : m Value) ∧
      Builtin.substr.call call [v, .number x] = (pure (.string after) : m Value) ∧ before ++ after = v.text := by
  intro cs n
  refine ⟨fun hn => ⟨?_, ?_, ?_⟩, fun args hargs => ?_, ?_⟩
  · rw [← clamp_eq_offset x hn, ← clamp_eq_offset y hn]
    exact substr_call call v x y
  · rw [← clamp_eq_offset x hn]
    exact substr_call_to_end call v x
  · rw [substr_call, pure_bind, len_call, String.length_ofList, List.length_take, List.length_drop,
      clamp_eq_offset x hn, clamp_eq_offset y hn]
  · have hbounds : ∃ start stop, bounds Builtin.substr.name args n = .ok (start, stop) ∧
        Builtin.substr.call call args = (pure (.string (String.ofList (cs.extract start stop))) : m Value) := by
      rcases List.mem_pair.1 hargs with rfl | rfl
      · exact ⟨_, _, rfl, pure_bind _ _⟩
      · exact ⟨_, _, rfl, pure_bind _ _⟩
    obtain ⟨start, stop, hbounds, hcall⟩ := hbounds
    obtain ⟨hle, hend⟩ := bounds_le hbounds
    exact ⟨start, stop, hbounds, hle, hend, hcall⟩
  · have hzero : clamp 0 n = 0 := by
      have htruncate : Number.truncate 0 = 0 := Number.truncate_eq_zero (.inr (by decide +kernel))
      unfold clamp
      rw [htruncate, Nat.zero_min]
    have hbefore := substr_call (m := m) call v 0 x
    rw [hzero, List.drop_zero] at hbefore
    refine ⟨_, _, hbefore, substr_call_to_end call v x, ?_⟩
    rw [← String.ofList_append, List.take_append_drop, String.ofList_toList]

end Parts

/-- Parts of a text with a letter beyond ASCII, at fractions and with an infinite length. -/
theorem substr_splits_fraction :
    let call : Caller (Except EvalError) := fun _ _ => .ok .null
    let v := Value.string "héllo"
    v.text.toList.length < UInt64.size ∧
    Builtin.substr.call call [v, .number 1.5, .number Number.infinity] = .ok (.string "éllo") ∧
    (Builtin.substr.call call [v, .number 1.5, .number Number.infinity] >>= fun part => Builtin.len.call call [part]) =
      .ok (.number 4) ∧
    ∃ before after, Builtin.substr.call call [v, .number 0, .number 1.5] = .ok (.string before) ∧
      Builtin.substr.call call [v, .number 1.5] = .ok (.string after) ∧ before ++ after = "héllo" := by
  intro call v
  have hlength : v.text.toList.length = 5 := by decide
  have hn : v.text.toList.length < UInt64.size := by decide
  have hstart : Number.offset 1.5 5 = 1 := by
    have hpart := Number.integerPart?_eq (x := 1.5) (d := ⟨false, 3 * 2 ^ 51, -52⟩) (by decide +kernel)
    unfold Number.offset
    rw [hpart, if_neg (by decide +kernel)]
    decide
  have hcount : Number.offset Number.infinity 5 = 5 := by
    have hpart : Number.integerPart? Number.infinity = none := by
      unfold Number.integerPart?
      rw [show Number.Dyadic.ofFloat? Number.infinity = none by decide +kernel, Option.map_none]
    unfold Number.offset
    rw [hpart, if_neg (by decide +kernel)]
  obtain ⟨hexact, -, hsplit⟩ := substr_splits call v 1.5 Number.infinity
  obtain ⟨hpart, -, hlen⟩ := hexact hn
  rw [hlength, hstart, hcount] at hpart hlen
  have hchars : String.ofList (List.take 5 (List.drop 1 v.text.toList)) = "éllo" := by decide
  rw [hchars] at hpart
  exact ⟨hn, hpart, hlen, hsplit⟩

end Builtin

end RuleLang
