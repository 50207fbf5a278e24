import Mathlib.Data.Nat.Notation
import Mathlib.Algebra.Order.Ring.Nat
import Mathlib.Data.List.Basic

/-!
# Lib.CStrings — strings that a program edits in place

A buffer of bytes, with strings that start at an index and end before the next NUL,
and the functions of the C library that look for a byte, a string or a token in them.
Reading past the end of the buffer gives NULs.

* `strstr_char`: what is found starts with the first byte of what was looked for;
* `strchr_some`, `strchr_none`: the string around the first byte of a kind;
* `set_restore`, `set_restore_two`: bytes that were replaced by NULs and are put back;
* `strtok_length`, `strtok_pos`: a token takes the search forward in a buffer of the
  same length.
-/

namespace Isambard.Lib.CStrings

abbrev Buffer := List UInt8

/-- The bytes of a string of ASCII characters. -/
def bytes (s : String) : Buffer := s.toList.map fun c => c.toNat.toUInt8

/-- The string at `p`. -/
def cstr (buf : Buffer) (p : ℕ) : Buffer := (buf.drop p).takeWhile fun b => b ≠ 0

/-- `buf[p]`. -/
def byteAt (buf : Buffer) (p : ℕ) : UInt8 := buf.getD p 0

/-- The first place where a list has the given sublist of consecutive elements. -/
def findSub (needle : Buffer) : Buffer → Option ℕ
  | [] => if needle = [] then some 0 else none
  | b :: l => if needle.isPrefixOf (b :: l) then some 0 else (findSub needle l).map (· + 1)

def strstr (buf : Buffer) (p : ℕ) (needle : Buffer) : Option ℕ :=
  (findSub needle (cstr buf p)).map (p + ·)

def strchr (buf : Buffer) (p : ℕ) (c : UInt8) : Option ℕ := strstr buf p [c]

/-- How many bytes from `p` on meet a condition. -/
def spanAt (buf : Buffer) (p : ℕ) (cond : UInt8 → Bool) : ℕ :=
  ((buf.drop p).takeWhile cond).length

/-- `strtok` with one delimiter: the next token, the buffer with a NUL in the place of
the delimiter after it, and where to go on. -/
def strtok (buf : Buffer) (pos : ℕ) (delim : UInt8) : Option (ℕ × Buffer × ℕ) :=
  let start := pos + spanAt buf pos (fun b => b = delim)
  if byteAt buf start = 0 then none
  else
    let stop := start + spanAt buf start (fun b => b ≠ delim && b ≠ 0)
    if byteAt buf stop = delim then some (start, buf.set stop 0, stop + 1)
    else some (start, buf, stop)

section Strings

variable {buf : Buffer} {p q : ℕ}

theorem findSub_head {c : UInt8} {needle l : Buffer} {i : ℕ}
    (h : findSub (c :: needle) l = some i) : l[i]? = some c := by
  induction l generalizing i with
  | nil => simp [findSub] at h
  | cons b l ih =>
    simp only [findSub] at h
    split_ifs at h with hb
    · cases h
      have hc := (List.cons_prefix_cons.1 (List.isPrefixOf_iff_prefix.1 hb)).1
      simp [hc]
    · rcases Option.map_eq_some_iff.1 h with ⟨j, hj, rfl⟩
      simpa using ih hj

theorem cstr_getElem? {i : ℕ} {c : UInt8} (h : (cstr buf p)[i]? = some c) :
    buf[p + i]? = some c := by
  have hprefix : cstr buf p <+: buf.drop p := List.takeWhile_prefix _
  rcases hprefix with ⟨t, ht⟩
  have hi := (List.getElem?_eq_some_iff.1 h).1
  rw [← List.getElem?_drop, ← ht, List.getElem?_append_left hi]
  exact h

theorem strstr_char {c : UInt8} {needle : Buffer} (h : strstr buf p (c :: needle) = some q) :
    buf[q]? = some c := by
  rcases Option.map_eq_some_iff.1 h with ⟨i, hi, rfl⟩
  exact cstr_getElem? (findSub_head hi)

theorem takeWhile_drop {cond : UInt8 → Bool} {l pre rest : Buffer} {c : UInt8}
    (h : l.takeWhile cond = pre ++ c :: rest) :
    (l.drop (pre.length + 1)).takeWhile cond = rest := by
  induction pre generalizing l with
  | nil =>
    rcases l with _ | ⟨a, l⟩
    · simp at h
    · rw [List.takeWhile_cons] at h
      split_ifs at h <;> cases h
      rfl
  | cons b pre ih =>
    rcases l with _ | ⟨a, l⟩
    · simp at h
    · rw [List.takeWhile_cons] at h
      split_ifs at h
      · exact ih (List.cons.inj h).2
      · cases h

theorem findSub_singleton {c : UInt8} {l : Buffer} {i : ℕ} (h : findSub [c] l = some i) :
    ∃ pre rest, l = pre ++ c :: rest ∧ pre.length = i ∧ c ∉ pre := by
  induction l generalizing i with
  | nil => simp [findSub] at h
  | cons b l ih =>
    simp only [findSub] at h
    split_ifs at h with hb
    · cases h
      have hc := (List.cons_prefix_cons.1 (List.isPrefixOf_iff_prefix.1 hb)).1
      exact ⟨[], l, by rw [hc]; rfl, rfl, List.not_mem_nil⟩
    · rcases Option.map_eq_some_iff.1 h with ⟨j, hj, rfl⟩
      rcases ih hj with ⟨pre, rest, rfl, rfl, hpre⟩
      refine ⟨b :: pre, rest, rfl, rfl, ?_⟩
      intro hmem
      rcases List.mem_cons.1 hmem with rfl | hmem
      · simp at hb
      · exact hpre hmem

theorem findSub_none {c : UInt8} {l : Buffer} (h : findSub [c] l = none) : c ∉ l := by
  induction l with
  | nil => exact List.not_mem_nil
  | cons b l ih =>
    simp only [findSub] at h
    split_ifs at h with hb
    intro hmem
    rcases List.mem_cons.1 hmem with rfl | hmem
    · simp at hb
    · exact ih (Option.map_eq_none_iff.1 h) hmem

/-- What `strchr` finds splits the string at the first such byte. -/
theorem strchr_some {c : UInt8} (h : strchr buf p c = some q) :
    ∃ pre, cstr buf p = pre ++ c :: cstr buf (q + 1) ∧ c ∉ pre := by
  rcases Option.map_eq_some_iff.1 h with ⟨i, hi, rfl⟩
  rcases findSub_singleton hi with ⟨pre, rest, he, rfl, hpre⟩
  have hrest := takeWhile_drop he
  rw [List.drop_drop] at hrest
  refine ⟨pre, ?_, hpre⟩
  rw [he]
  unfold cstr
  rw [Nat.add_assoc, hrest]

theorem strchr_none {c : UInt8} (h : strchr buf p c = none) : c ∉ cstr buf p :=
  findSub_none (Option.map_eq_none_iff.1 h)

/-- A byte that is replaced, and put back. -/
theorem set_restore {c x : UInt8} (h : buf[p]? = some c) : (buf.set p x).set p c = buf := by
  rcases List.getElem?_eq_some_iff.1 h with ⟨hp, rfl⟩
  rw [List.set_set, List.set_getElem_self]

/-- Two bytes that are replaced by NULs, the second one after the first, and put back
in the same order. -/
theorem set_restore_two {c d : UInt8} (hc : buf[p]? = some c) (hd : d ≠ 0)
    (hq : (buf.set p 0)[q]? = some d) : (((buf.set p 0).set q 0).set p c).set q d = buf := by
  rcases List.getElem?_eq_some_iff.1 hc with ⟨hp, -⟩
  have hne : p ≠ q := by
    rintro rfl
    rw [List.getElem?_set_self hp] at hq
    exact hd (Option.some.inj hq).symm
  rw [List.getElem?_set_ne hne] at hq
  rw [List.set_comm _ _ hne.symm, set_restore hc, set_restore hq]

theorem strtok_length {delim : UInt8} {start pos : ℕ} {buf' : Buffer}
    (h : strtok buf p delim = some (start, buf', pos)) : buf'.length = buf.length := by
  simp only [strtok] at h
  split_ifs at h <;> cases h
  · exact List.length_set
  · rfl

theorem takeWhile_stop {cond : UInt8 → Bool} {l : Buffer} {b : UInt8}
    (h : l[(l.takeWhile cond).length]? = some b) : cond b = false := by
  induction l with
  | nil => simp at h
  | cons a l ih =>
    rcases ha : cond a with _ | _
    · simp [ha] at h
      rwa [← h]
    · simp [ha] at h
      exact ih h

theorem byteAt_spanAt {cond : UInt8 → Bool} (h : byteAt buf (p + spanAt buf p cond) ≠ 0) :
    cond (byteAt buf (p + spanAt buf p cond)) = false := by
  unfold byteAt at h ⊢
  rw [List.getD_eq_getElem?_getD] at h ⊢
  rcases hb : buf[p + spanAt buf p cond]? with _ | b
  · rw [hb] at h
    exact absurd rfl h
  · refine takeWhile_stop (l := buf.drop p) ?_
    rw [List.getElem?_drop]
    exact hb

theorem spanAt_pos {cond : UInt8 → Bool} (h : byteAt buf p ≠ 0) (hc : cond (byteAt buf p)) :
    0 < spanAt buf p cond := by
  unfold byteAt at h hc
  rw [List.getD_eq_getElem?_getD] at h hc
  rcases hb : buf[p]? with _ | b
  · rw [hb] at h
    exact absurd rfl h
  · rcases List.getElem?_eq_some_iff.1 hb with ⟨hp, rfl⟩
    rw [hb] at hc
    unfold spanAt
    rw [List.drop_eq_getElem_cons hp, List.takeWhile_cons_of_pos (by simpa using hc)]
    exact Nat.succ_pos _

theorem spanAt_le (buf : Buffer) (p : ℕ) (cond : UInt8 → Bool) :
    spanAt buf p cond ≤ buf.length - p := by
  rw [← List.length_drop]
  exact (List.takeWhile_prefix _).length_le

theorem byteAt_lt (h : byteAt buf p ≠ 0) : p < buf.length := by
  by_contra hle
  apply h
  unfold byteAt
  rw [List.getD_eq_getElem?_getD, List.getElem?_eq_none (not_lt.1 hle)]
  rfl

/-- A token has at least one byte. -/
theorem strtok_pos {delim : UInt8} (hd : delim ≠ 0) {start pos : ℕ} {buf' : Buffer}
    (h : strtok buf p delim = some (start, buf', pos)) : p < pos ∧ pos ≤ buf.length := by
  simp only [strtok] at h
  by_cases hz : byteAt buf (p + spanAt buf p fun b => b = delim) = 0
  · rw [if_pos hz] at h
    contradiction
  · rw [if_neg hz] at h
    have hdelim := byteAt_spanAt hz
    have hlt := byteAt_lt hz
    have hge : p ≤ p + spanAt buf p fun b => b = delim := Nat.le_add_right _ _
    generalize p + spanAt buf p (fun b => b = delim) = q at *
    have hpos : 0 < spanAt buf q fun b => b ≠ delim && b ≠ 0 := by
      apply spanAt_pos hz
      simpa using ⟨of_decide_eq_false hdelim, hz⟩
    have hle := spanAt_le buf q fun b => b ≠ delim && b ≠ 0
    generalize spanAt buf q (fun b => b ≠ delim && b ≠ 0) = n at *
    by_cases hstop : byteAt buf (q + n) = delim
    · rw [if_pos hstop] at h
      have hstop' := byteAt_lt (hstop ▸ hd)
      cases h
      omega
    · rw [if_neg hstop] at h
      cases h
      omega

end Strings

end Isambard.Lib.CStrings
