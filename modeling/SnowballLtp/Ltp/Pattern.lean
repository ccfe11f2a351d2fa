import SnowballLtp.Machine.Loop
import SnowballLtp.Machine.Bytes

/-!
# Filling and checking a buffer with a pattern

`pattern_fill` copies a rotated pattern into a buffer and `pattern_check` compares a buffer with
it. Both treat the first period in up to two parts, the end of the pattern and then its beginning,
and go on from there with the buffer alone: the fill copies what it has filled so far behind
itself, the check compares the buffer with what it has checked so far, twice as much in every
pass.

The invariant of both loops is that a whole number of periods is done. A copy or a comparison that
starts a whole number of periods further then meets the same bytes of the pattern.

## Main definitions

* `patternFill`, `patternCheck`.
* `Matches`: a prefix of the buffer shows the pattern.

## Main results

* `patternFill_spec`, `patternCheck_spec`.
-/

namespace SnowballLtp

namespace Pattern

/-- The variables of the loop of `pattern_fill`. -/
structure FillState where
  buf : List UInt8
  cp : ℤ
  ncopied : ℤ
  nleft : ℤ

/-- A pass of the loop of `pattern_fill`. -/
def fillStep (buflen : ℤ) (s : FillState) : FillState ⊕ Except Fault (ℤ × List UInt8) :=
  if s.ncopied < buflen then
    let trans := if s.ncopied < s.nleft then s.ncopied else s.nleft
    match memcpyWithin s.buf s.cp 0 trans with
    | .ok buf =>
      .inl { buf, cp := s.cp + trans, ncopied := s.ncopied + trans, nleft := s.nleft - trans }
    | .error fault => .inr (.error fault)
  else .inr (.ok (0, s.buf))

/-- The loop of `pattern_fill`, entered with `cp` bytes filled. -/
def fillRest (fuel : ℕ) (buf : List UInt8) (buflen cp nleft : ℤ) :
    Option (Except Fault (ℤ × List UInt8)) :=
  iterate (fillStep buflen) fuel { buf, cp, ncopied := cp, nleft }

/-- The second part of the first period in `pattern_fill`, and what follows it. -/
def fillSecond (fuel : ℕ) (buf : List UInt8) (buflen : ℤ) (pat : List UInt8)
    (patshift cp nleft : ℤ) : Option (Except Fault (ℤ × List UInt8)) :=
  if 0 < patshift then
    let trans := patshift
    if nleft < trans then
      some ((memcpy buf cp pat 0 nleft).map fun buf => (0, buf))
    else
      match memcpy buf cp pat 0 trans with
      | .ok buf => fillRest fuel buf buflen (cp + trans) (nleft - trans)
      | .error fault => some (.error fault)
  else fillRest fuel buf buflen cp nleft

/-- `pattern_fill`: the return value and the buffer. -/
def patternFill (fuel : ℕ) (buf : List UInt8) (buflen : ℤ) (pat : List UInt8)
    (patlen patshift : ℤ) : Option (Except Fault (ℤ × List UInt8)) :=
  let patshift := if patlen ≠ 0 then patshift.tmod patlen else patshift
  let trans := patlen - patshift
  if buflen < trans then
    some ((memcpy buf 0 pat patshift buflen).map fun buf => (0, buf))
  else
    match memcpy buf 0 pat patshift trans with
    | .ok buf => fillSecond fuel buf buflen pat patshift trans (buflen - trans)
    | .error fault => some (.error fault)

/-- The variables of the loop of `pattern_check`. -/
structure CheckState where
  cp : ℤ
  ncmp : ℤ
  nleft : ℤ

/-- A pass of the loop of `pattern_check`. -/
def checkStep (buf : List UInt8) (buflen : ℤ) (s : CheckState) : CheckState ⊕ Except Fault ℤ :=
  if s.ncmp < buflen then
    let nb := if s.ncmp < s.nleft then s.ncmp else s.nleft
    match memcmp buf 0 buf s.cp nb with
    | .ok cmp =>
      if cmp ≠ 0 then .inr (.ok (-1))
      else .inl { cp := s.cp + nb, ncmp := s.ncmp + nb, nleft := s.nleft - nb }
    | .error fault => .inr (.error fault)
  else .inr (.ok 0)

/-- The loop of `pattern_check`, entered with `cp` bytes compared. -/
def checkRest (fuel : ℕ) (buf : List UInt8) (buflen cp nleft : ℤ) : Option (Except Fault ℤ) :=
  iterate (checkStep buf buflen) fuel { cp, ncmp := cp, nleft }

/-- The second part of the first period in `pattern_check`, and what follows it. -/
def checkSecond (fuel : ℕ) (buf : List UInt8) (buflen : ℤ) (pat : List UInt8)
    (patshift cp nleft : ℤ) : Option (Except Fault ℤ) :=
  if 0 < patshift then
    let nb := patshift
    if nleft < nb then
      some ((memcmp buf cp pat 0 nleft).map fun cmp => if cmp ≠ 0 then -1 else 0)
    else
      match memcmp buf cp pat 0 nb with
      | .ok cmp =>
        if cmp ≠ 0 then some (.ok (-1))
        else checkRest fuel buf buflen (cp + nb) (nleft - nb)
      | .error fault => some (.error fault)
  else checkRest fuel buf buflen cp nleft

/-- `pattern_check`. -/
def patternCheck (fuel : ℕ) (buf : List UInt8) (buflen : ℤ) (pat : List UInt8)
    (patlen patshift : ℤ) : Option (Except Fault ℤ) :=
  let patshift := if patlen ≠ 0 then patshift.tmod patlen else patshift
  let nb := patlen - patshift
  if buflen < nb then
    some ((memcmp buf 0 pat patshift buflen).map fun cmp => if cmp ≠ 0 then -1 else 0)
  else
    match memcmp buf 0 pat patshift nb with
    | .ok cmp =>
      if cmp ≠ 0 then some (.ok (-1))
      else checkSecond fuel buf buflen pat patshift nb (buflen - nb)
    | .error fault => some (.error fault)

/-! ### Prefixes that show the pattern -/

/-- The first `len` bytes of the buffer are the pattern from `shift` on, repeated. -/
def Matches (buf pat : List UInt8) (shift len : ℕ) : Prop :=
  ∀ i < len, buf[i]? = pat[(i + shift) % pat.length]?

theorem matches_add_iff (buf pat : List UInt8) (shift k n : ℕ) :
    Matches buf pat shift (k + n) ↔ Matches buf pat shift k ∧
      ∀ j < n, buf[k + j]? = pat[(k + j + shift) % pat.length]? := by
  constructor
  · intro h
    exact ⟨fun i hi => h i (by omega), fun j hj => h (k + j) (by omega)⟩
  · rintro ⟨hlow, hhigh⟩ i hi
    rcases Nat.lt_or_ge i k with hik | hik
    · exact hlow i hik
    · obtain ⟨j, rfl⟩ := Nat.exists_eq_add_of_le hik
      exact hhigh j (by omega)

/-- The prefix goes on for as long as the buffer agrees with the pattern from where it stands. -/
theorem matches_add_iff_slice_pat (buf : List UInt8) {pat : List UInt8} {shift k q n : ℕ}
    (hq : (k + shift) % pat.length = q) (hn : q + n ≤ pat.length) :
    Matches buf pat shift (k + n) ↔
      Matches buf pat shift k ∧ slice buf k n = slice pat q n := by
  rw [matches_add_iff, slice_eq_slice_iff]
  refine and_congr_right fun _ => forall₂_congr fun j hj => ?_
  have hmod : (k + j + shift) % pat.length = q + j := by
    rw [show k + j + shift = k + shift + j by omega, Nat.add_mod, hq,
      Nat.mod_eq_of_lt (show j < pat.length by omega), Nat.mod_eq_of_lt (by omega)]
  rw [hmod]

/-- After a whole number of periods the prefix goes on for as long as the buffer agrees with its
own beginning. -/
theorem matches_add_iff_slice_self (buf : List UInt8) {pat : List UInt8} (shift : ℕ) {k n : ℕ}
    (hdvd : pat.length ∣ k) (hn : n ≤ k) :
    Matches buf pat shift (k + n) ↔
      Matches buf pat shift k ∧ slice buf 0 n = slice buf k n := by
  rw [matches_add_iff, slice_eq_slice_iff]
  refine and_congr_right fun hlow => forall₂_congr fun j hj => ?_
  obtain ⟨t, rfl⟩ := hdvd
  have hmod : (pat.length * t + j + shift) % pat.length = (j + shift) % pat.length := by
    rw [Nat.add_assoc, Nat.mul_add_mod]
  rw [hmod, Nat.zero_add, hlow j (by omega), eq_comm]

/-! ### Filling -/

/-- The first `k` bytes of `orig` have been replaced by the pattern, the others are as before. -/
structure Filled (orig pat : List UInt8) (shift k : ℕ) (buf : List UInt8) : Prop where
  length_eq : buf.length = orig.length
  shows : Matches buf pat shift k
  rest : ∀ i, k ≤ i → buf[i]? = orig[i]?

namespace Filled

variable {orig pat buf : List UInt8} {shift k q n : ℕ}

theorem zero (orig pat : List UInt8) (shift : ℕ) : Filled orig pat shift 0 orig :=
  ⟨rfl, fun _ hi => absurd hi (Nat.not_lt_zero _), fun _ _ => rfl⟩

/-- Writing `data` behind the filled prefix keeps the prefix and what is behind the data. -/
private theorem overwrite_of_shows (h : Filled orig pat shift k buf) (data : List UInt8)
    (hlen : k + data.length ≤ orig.length)
    (hshows : Matches (overwrite buf k data) pat shift k →
      Matches (overwrite buf k data) pat shift (k + data.length)) :
    Filled orig pat shift (k + data.length) (overwrite buf k data) := by
  have hfit : k + data.length ≤ buf.length := by rw [h.length_eq]; exact hlen
  refine ⟨(length_overwrite hfit).trans h.length_eq, hshows fun i hi => ?_, fun i hi => ?_⟩
  · rw [getElem?_overwrite hfit, if_neg (by omega)]
    exact h.shows i hi
  · rw [getElem?_overwrite hfit, if_neg (by omega)]
    exact h.rest i (by omega)

theorem copy_pat (h : Filled orig pat shift k buf) (hlen : k + n ≤ orig.length)
    (hq : (k + shift) % pat.length = q) (hn : q + n ≤ pat.length) :
    Filled orig pat shift (k + n) (overwrite buf k (slice pat q n)) := by
  have hdata : (slice pat q n).length = n := length_slice hn
  have hfit : k + (slice pat q n).length ≤ buf.length := by rw [hdata, h.length_eq]; exact hlen
  have hself := slice_overwrite_self hfit
  rw [hdata] at hself
  have hfilled := h.overwrite_of_shows (slice pat q n) (by omega) fun hlow => by
    rw [hdata]
    exact (matches_add_iff_slice_pat _ hq hn).mpr ⟨hlow, hself⟩
  rwa [hdata] at hfilled

theorem copy_self (h : Filled orig pat shift k buf) (hlen : k + n ≤ orig.length)
    (hdvd : pat.length ∣ k) (hn : n ≤ k) :
    Filled orig pat shift (k + n) (overwrite buf k (slice buf 0 n)) := by
  have hdata : (slice buf 0 n).length = n := length_slice (by rw [h.length_eq]; omega)
  have hfit : k + (slice buf 0 n).length ≤ buf.length := by rw [hdata, h.length_eq]; exact hlen
  have hself := slice_overwrite_self hfit
  have hbegin := slice_overwrite_of_apart 0 n hfit (by omega)
  rw [hdata] at hself
  have hfilled := h.overwrite_of_shows (slice buf 0 n) (by omega) fun hlow => by
    rw [hdata]
    exact (matches_add_iff_slice_self _ _ hdvd hn).mpr ⟨hlow, hbegin.trans hself.symm⟩
  rwa [hdata] at hfilled

end Filled

/-- What holds between the passes of the loop of `pattern_fill`: `k` bytes are filled, a whole
number of periods unless the buffer is full. -/
structure FillInv (orig pat : List UInt8) (shift len k : ℕ) (s : FillState) : Prop where
  cp_eq : s.cp = k
  ncopied_eq : s.ncopied = k
  nleft_eq : s.nleft = len - k
  pos : 0 < k
  le_len : k ≤ len
  periods : k < len → pat.length ∣ k
  filled : Filled orig pat shift k s.buf

/-- A pass fills as much as is filled already, or as much as is left. -/
private theorem fillStep_of_inv {orig pat : List UInt8} {shift len k : ℕ} {s : FillState}
    (hlen : len ≤ orig.length) (h : FillInv orig pat shift len k s) (hk : k < len) :
    ∃ s', fillStep len s = .inl s' ∧ FillInv orig pat shift len (k + min k (len - k)) s' := by
  obtain ⟨buf, cp, ncopied, nleft⟩ := s
  obtain ⟨rfl, rfl, rfl, hpos, -, hperiods, hfilled⟩ := h
  dsimp only at hfilled
  have htrans : (if (k : ℤ) < (len : ℤ) - k then (k : ℤ) else (len : ℤ) - k) =
      (min k (len - k) : ℕ) := by
    split_ifs <;> omega
  have hcopy : memcpyWithin buf k 0 ((min k (len - k) : ℕ) : ℤ) =
      .ok (overwrite buf k (slice buf 0 (min k (len - k)))) := by
    have hbuf := hfilled.length_eq
    exact memcpyWithin_eq_ok buf k 0 (min k (len - k)) (by omega) (by omega) (by omega)
  refine ⟨⟨overwrite buf k (slice buf 0 (min k (len - k))), k + (min k (len - k) : ℕ),
    k + (min k (len - k) : ℕ), len - k - (min k (len - k) : ℕ)⟩, ?_, ?_⟩
  · simp only [fillStep, htrans, hcopy]
    rw [if_pos (by omega)]
  · refine ⟨by push_cast; rfl, by push_cast; rfl, by push_cast; omega, by omega, by omega,
      fun hlt => ?_, hfilled.copy_self (by omega) (hperiods hk) (by omega)⟩
    -- the buffer is not full afterwards, so the pass has doubled what is filled
    have hmin : min k (len - k) = k := by omega
    rw [hmin]
    exact Nat.dvd_add (hperiods hk) (hperiods hk)

private theorem fillRest_of_inv {fuel : ℕ} {orig pat buf : List UInt8} {shift len k : ℕ}
    {cp nleft : ℤ} (hlen : len ≤ orig.length) (hfuel : len < fuel)
    (h : FillInv orig pat shift len k { buf, cp, ncopied := cp, nleft }) :
    ∃ out, fillRest fuel buf len cp nleft = some (.ok (0, out)) ∧
      Filled orig pat shift len out := by
  suffices hrun : ∃ r, fillRest fuel buf len cp nleft = some r ∧
      ∃ out, r = .ok (0, out) ∧ Filled orig pat shift len out by
    obtain ⟨_, hr, out, rfl, hout⟩ := hrun
    exact ⟨out, hr, hout⟩
  refine iterate_of_measure (fun s => ∃ k, FillInv orig pat shift len k s)
    (fun s => s.nleft.toNat) _ ?_ ⟨k, h⟩ ?_
  · rintro s ⟨k, hs⟩
    have hleft := hs.nleft_eq
    have hpos := hs.pos
    rcases Nat.lt_or_ge k len with hk | hk
    · obtain ⟨s', hs', hinv⟩ := fillStep_of_inv hlen hs hk
      have hleft' := hinv.nleft_eq
      exact .inl ⟨s', hs', ⟨_, hinv⟩, by omega⟩
    · obtain rfl : k = len := Nat.le_antisymm hs.le_len hk
      refine .inr ⟨.ok (0, s.buf), ?_, s.buf, rfl, hs.filled⟩
      rw [fillStep, if_neg (by rw [hs.ncopied_eq]; omega)]
  · have hleft := h.nleft_eq
    dsimp only at hleft ⊢
    omega

/-- The first part of the period goes up to the end of the pattern, so the second starts at its
beginning. -/
private theorem fillSecond_of_filled {fuel : ℕ} {orig pat buf : List UInt8} {shift len : ℕ}
    (hlen : len ≤ orig.length) (hshift : shift < pat.length) (hfuel : len < fuel)
    (hfirst : pat.length - shift ≤ len)
    (h : Filled orig pat shift (pat.length - shift) buf) :
    ∃ out, fillSecond fuel buf len pat shift (pat.length - shift : ℕ)
        (len - (pat.length - shift : ℕ)) = some (.ok (0, out)) ∧
      Filled orig pat shift len out := by
  have hq : (pat.length - shift + shift) % pat.length = 0 := by
    rw [Nat.sub_add_cancel (Nat.le_of_lt hshift), Nat.mod_self]
  have hbuf := h.length_eq
  rw [fillSecond]
  by_cases hs : 0 < shift
  · rw [if_pos (by omega)]
    by_cases hshort : len - (pat.length - shift) < shift
    · have hcopy : memcpy buf (pat.length - shift : ℕ) pat 0
          ((len - (pat.length - shift) : ℕ) : ℤ) = _ :=
        memcpy_eq_ok buf pat _ 0 _ (by omega) (by omega)
      rw [if_pos (by omega), ← Int.ofNat_sub hfirst, hcopy]
      refine ⟨_, rfl, ?_⟩
      have hfilled := h.copy_pat (n := len - (pat.length - shift)) (by omega) hq (by omega)
      rwa [Nat.add_sub_cancel' hfirst] at hfilled
    · have hcopy : memcpy buf (pat.length - shift : ℕ) pat 0 (shift : ℤ) = _ :=
        memcpy_eq_ok buf pat _ 0 _ (by omega) (by omega)
      have hfilled := h.copy_pat (n := shift) (by omega) hq (by omega)
      rw [if_neg (by omega)]
      simp only [hcopy]
      refine fillRest_of_inv (k := pat.length) hlen hfuel
        ⟨by push_cast; omega, by push_cast; omega, by push_cast; omega, by omega, by omega,
          fun _ => Nat.dvd_refl _, ?_⟩
      rwa [Nat.sub_add_cancel (Nat.le_of_lt hshift)] at hfilled
  · obtain rfl : shift = 0 := by omega
    rw [if_neg (by omega)]
    exact fillRest_of_inv (k := pat.length) hlen hfuel
      ⟨by simp, by simp, by simp, by omega, by simpa using hfirst, fun _ => Nat.dvd_refl _, h⟩

/-- **Filling.** The fill returns 0, stays inside the buffer and the pattern, leaves the bytes
behind `buflen` alone, and byte `i` of the buffer is then byte `(i + patshift) mod patlen` of the
pattern. -/
theorem patternFill_spec {fuel : ℕ} {buf pat : List UInt8} {buflen patlen patshift : ℤ}
    (hbuflen : 0 ≤ buflen) (hbuf : buflen ≤ buf.length) (hpatlen : 1 ≤ patlen)
    (hpat : patlen = pat.length) (hshift : 0 ≤ patshift) (hfuel : buflen < fuel) :
    ∃ out, patternFill fuel buf buflen pat patlen patshift = some (.ok (0, out)) ∧
      out.length = buf.length ∧
      (∀ i : ℕ, i < buflen → out[i]? = pat[((i + patshift) % patlen).toNat]?) ∧
      ∀ i : ℕ, buflen ≤ i → out[i]? = buf[i]? := by
  obtain ⟨len, rfl⟩ := Int.eq_ofNat_of_zero_le hbuflen
  obtain ⟨shift, rfl⟩ := Int.eq_ofNat_of_zero_le hshift
  subst hpat
  have hlen : len ≤ buf.length := by omega
  have hmod : shift % pat.length < pat.length := Nat.mod_lt _ (by omega)
  suffices hrun : ∃ out,
      patternFill fuel buf len pat pat.length shift = some (.ok (0, out)) ∧
        Filled buf pat (shift % pat.length) len out by
    obtain ⟨out, hout, hfilled⟩ := hrun
    refine ⟨out, hout, hfilled.length_eq, fun i hi => ?_, fun i hi => hfilled.rest i (by omega)⟩
    rw [hfilled.shows i (by omega), Nat.add_mod_mod]
    norm_cast
  have htmod : (if (pat.length : ℤ) ≠ 0 then (shift : ℤ).tmod pat.length else shift) =
      (shift % pat.length : ℕ) := by
    rw [if_pos (by omega), Int.ofNat_tmod]
  have hq : (0 + shift % pat.length) % pat.length = shift % pat.length := by
    rw [Nat.zero_add, Nat.mod_mod]
  rw [patternFill, htmod, ← Int.ofNat_sub (Nat.le_of_lt hmod)]
  by_cases hshort : len < pat.length - shift % pat.length
  · have hcopy : memcpy buf 0 pat (shift % pat.length : ℕ) (len : ℤ) = _ :=
      memcpy_eq_ok buf pat 0 _ _ (by omega) (by omega)
    rw [if_pos (by omega), hcopy]
    refine ⟨_, rfl, ?_⟩
    have hfilled := (Filled.zero buf pat _).copy_pat (n := len) (by omega) hq (by omega)
    rwa [Nat.zero_add] at hfilled
  · have hcopy : memcpy buf 0 pat (shift % pat.length : ℕ)
        ((pat.length - shift % pat.length : ℕ) : ℤ) = _ :=
      memcpy_eq_ok buf pat 0 _ _ (by omega) (by omega)
    rw [if_neg (by omega), hcopy]
    refine fillSecond_of_filled hlen hmod (by omega) (by omega) ?_
    have hfilled := (Filled.zero buf pat (shift % pat.length)).copy_pat
      (n := pat.length - shift % pat.length) (by omega) hq (by omega)
    rwa [Nat.zero_add] at hfilled

theorem patternFill_sevenBytes :
    ∃ out, patternFill 8 (List.replicate 7 0) 7 [97, 98, 99] 3 4 = some (.ok (0, out)) ∧
      out.length = (List.replicate 7 (0 : UInt8)).length ∧
      (∀ i : ℕ, (i : ℤ) < 7 →
        out[i]? = ([97, 98, 99] : List UInt8)[(((i : ℤ) + 4) % 3).toNat]?) ∧
      ∀ i : ℕ, (7 : ℤ) ≤ i → out[i]? = (List.replicate 7 (0 : UInt8))[i]? :=
  patternFill_spec (by decide) (by decide) (by decide) (by decide) (by decide) (by decide)

/-! ### Checking -/

section Check

variable {buf pat : List UInt8} {shift k q n len fuel : ℕ}

/-- The prefix goes on exactly if the comparison of the next block finds no difference. -/
structure Decides (buf pat : List UInt8) (shift k n : ℕ) (cmp : ℤ) : Prop where
  go_on : cmp = 0 → Matches buf pat shift k → Matches buf pat shift (k + n)
  stop : cmp ≠ 0 → ¬ Matches buf pat shift (k + n)

private theorem memcmp_pat (buf : List UInt8) (hlen : k + n ≤ buf.length)
    (hq : (k + shift) % pat.length = q) (hn : q + n ≤ pat.length) :
    ∃ cmp, memcmp buf k pat q n = .ok cmp ∧ Decides buf pat shift k n cmp := by
  have hzero := firstDifference_eq_zero_iff (x := slice buf k n) (y := slice pat q n)
    (by rw [length_slice hlen, length_slice hn])
  have hiff := matches_add_iff_slice_pat buf hq hn
  refine ⟨_, memcmp_eq_ok _ _ _ _ _ hlen hn, fun h hlow => ?_, fun h hall => ?_⟩
  · exact hiff.mpr ⟨hlow, hzero.mp h⟩
  · exact h (hzero.mpr (hiff.mp hall).2)

private theorem memcmp_self (buf : List UInt8) (shift : ℕ) (hlen : k + n ≤ buf.length)
    (hdvd : pat.length ∣ k) (hn : n ≤ k) :
    ∃ cmp, memcmp buf 0 buf k n = .ok cmp ∧ Decides buf pat shift k n cmp := by
  have hbegin : 0 + n ≤ buf.length := by omega
  have hzero := firstDifference_eq_zero_iff (x := slice buf 0 n) (y := slice buf k n)
    (by rw [length_slice hbegin, length_slice hlen])
  have hiff := matches_add_iff_slice_self buf shift hdvd hn
  refine ⟨_, memcmp_eq_ok _ _ 0 _ _ hbegin hlen, fun h hlow => ?_, fun h hall => ?_⟩
  · exact hiff.mpr ⟨hlow, hzero.mp h⟩
  · exact h (hzero.mpr (hiff.mp hall).2)

/-- The result says whether the first `len` bytes show the pattern. -/
def Judges (buf pat : List UInt8) (shift len : ℕ) (r : Except Fault ℤ) : Prop :=
  r = .ok 0 ∧ Matches buf pat shift len ∨ r = .ok (-1) ∧ ¬ Matches buf pat shift len

theorem Matches.mono (h : Matches buf pat shift len) (hk : k ≤ len) : Matches buf pat shift k :=
  fun i hi => h i (by omega)

/-- A difference found early is a difference of the whole. -/
private theorem Decides.judges_neg {cmp : ℤ} (h : Decides buf pat shift k n cmp) (hcmp : cmp ≠ 0)
    (hle : k + n ≤ len) : Judges buf pat shift len (.ok (-1)) :=
  .inr ⟨rfl, fun hall => h.stop hcmp (hall.mono hle)⟩

/-- The last block decides. -/
private theorem Decides.judges_last {cmp : ℤ} (h : Decides buf pat shift k n cmp)
    (hlow : Matches buf pat shift k) (hlen : k + n = len) :
    Judges buf pat shift len (.ok (if cmp ≠ 0 then -1 else 0)) := by
  by_cases hcmp : cmp = 0
  · rw [if_neg (not_not_intro hcmp), ← hlen]
    exact .inl ⟨rfl, h.go_on hcmp hlow⟩
  · rw [if_pos hcmp]
    exact h.judges_neg hcmp (by omega)

/-- What holds between the passes of the loop of `pattern_check`. -/
structure CheckInv (buf pat : List UInt8) (shift len k : ℕ) (s : CheckState) : Prop where
  cp_eq : s.cp = k
  ncmp_eq : s.ncmp = k
  nleft_eq : s.nleft = len - k
  pos : 0 < k
  le_len : k ≤ len
  periods : k < len → pat.length ∣ k
  shows : Matches buf pat shift k

/-- A pass compares as much as is compared already, or as much as is left. -/
private theorem checkStep_of_inv {s : CheckState} (hlen : len ≤ buf.length)
    (h : CheckInv buf pat shift len k s) (hk : k < len) :
    (∃ s', checkStep buf len s = .inl s' ∧
      CheckInv buf pat shift len (k + min k (len - k)) s') ∨
    checkStep buf len s = .inr (.ok (-1)) ∧ Judges buf pat shift len (.ok (-1)) := by
  obtain ⟨cp, ncmp, nleft⟩ := s
  obtain ⟨rfl, rfl, rfl, hpos, -, hperiods, hshows⟩ := h
  have hnb : (if (k : ℤ) < (len : ℤ) - k then (k : ℤ) else (len : ℤ) - k) =
      (min k (len - k) : ℕ) := by
    split_ifs <;> omega
  obtain ⟨cmp, hcmp, hdecides⟩ := memcmp_self (n := min k (len - k)) buf shift
    (by omega) (hperiods hk) (by omega)
  by_cases hzero : cmp = 0
  · refine .inl ⟨⟨k + (min k (len - k) : ℕ), k + (min k (len - k) : ℕ),
      len - k - (min k (len - k) : ℕ)⟩, ?_, ?_⟩
    · simp only [checkStep, hnb, hcmp]
      rw [if_pos (by omega), if_neg (not_not_intro hzero)]
    · refine ⟨by push_cast; rfl, by push_cast; rfl, by push_cast; omega, by omega, by omega,
        fun hlt => ?_, hdecides.go_on hzero hshows⟩
      have hmin : min k (len - k) = k := by omega
      rw [hmin]
      exact Nat.dvd_add (hperiods hk) (hperiods hk)
  · refine .inr ⟨?_, hdecides.judges_neg hzero (by omega)⟩
    simp only [checkStep, hnb, hcmp]
    rw [if_pos (by omega), if_pos hzero]

private theorem checkRest_of_inv {cp nleft : ℤ} (hlen : len ≤ buf.length) (hfuel : len < fuel)
    (h : CheckInv buf pat shift len k { cp, ncmp := cp, nleft }) :
    ∃ r, checkRest fuel buf len cp nleft = some r ∧ Judges buf pat shift len r := by
  refine iterate_of_measure (fun s => ∃ k, CheckInv buf pat shift len k s)
    (fun s => s.nleft.toNat) _ ?_ ⟨k, h⟩ ?_
  · rintro s ⟨k, hs⟩
    have hleft := hs.nleft_eq
    have hpos := hs.pos
    rcases Nat.lt_or_ge k len with hk | hk
    · obtain ⟨s', hs', hinv⟩ | ⟨hout, hjudges⟩ := checkStep_of_inv hlen hs hk
      · have hleft' := hinv.nleft_eq
        exact .inl ⟨s', hs', ⟨_, hinv⟩, by omega⟩
      · exact .inr ⟨_, hout, hjudges⟩
    · obtain rfl : k = len := Nat.le_antisymm hs.le_len hk
      refine .inr ⟨.ok 0, ?_, .inl ⟨rfl, hs.shows⟩⟩
      rw [checkStep, if_neg (by rw [hs.ncmp_eq]; omega)]
  · have hleft := h.nleft_eq
    dsimp only at hleft ⊢
    omega

private theorem checkSecond_of_shows (hlen : len ≤ buf.length) (hshift : shift < pat.length)
    (hfuel : len < fuel) (hfirst : pat.length - shift ≤ len)
    (h : Matches buf pat shift (pat.length - shift)) :
    ∃ r, checkSecond fuel buf len pat shift (pat.length - shift : ℕ)
        (len - (pat.length - shift : ℕ)) = some r ∧ Judges buf pat shift len r := by
  have hsum : pat.length - shift + shift = pat.length :=
    Nat.sub_add_cancel (Nat.le_of_lt hshift)
  have hq : (pat.length - shift + shift) % pat.length = 0 := by rw [hsum, Nat.mod_self]
  rw [checkSecond]
  by_cases hs : 0 < shift
  · rw [if_pos (by omega)]
    by_cases hshort : len - (pat.length - shift) < shift
    · obtain ⟨cmp, hcmp, hdecides⟩ := memcmp_pat buf
        (n := len - (pat.length - shift)) (by omega) hq (by omega)
      rw [if_pos (by omega), ← Int.ofNat_sub hfirst, show (0 : ℤ) = (0 : ℕ) from rfl, hcmp]
      exact ⟨_, rfl, hdecides.judges_last h (Nat.add_sub_cancel' hfirst)⟩
    · obtain ⟨cmp, hcmp, hdecides⟩ := memcmp_pat buf (n := shift) (by omega) hq (by omega)
      rw [if_neg (by omega)]
      rw [show ((0 : ℕ) : ℤ) = 0 from rfl] at hcmp
      simp only [hcmp]
      by_cases hzero : cmp = 0
      · rw [if_neg (not_not_intro hzero)]
        have hshows := hdecides.go_on hzero h
        rw [hsum] at hshows
        exact checkRest_of_inv (k := pat.length) hlen hfuel
          ⟨by push_cast; omega, by push_cast; omega, by push_cast; omega, by omega, by omega,
            fun _ => Nat.dvd_refl _, hshows⟩
      · rw [if_pos hzero]
        exact ⟨_, rfl, hdecides.judges_neg hzero (by omega)⟩
  · obtain rfl : shift = 0 := by omega
    rw [if_neg (by omega)]
    exact checkRest_of_inv (k := pat.length) hlen hfuel
      ⟨by simp, by simp, by simp, by omega, by simpa using hfirst, fun _ => Nat.dvd_refl _, h⟩

end Check

/-- **Checking.** The check stays inside the buffer and the pattern; it returns 0 if every byte
`i` of the buffer is byte `(i + patshift) mod patlen` of the pattern, and -1 otherwise. -/
theorem patternCheck_spec {fuel : ℕ} {buf pat : List UInt8} {buflen patlen patshift : ℤ}
    (hbuflen : 0 ≤ buflen) (hbuf : buflen ≤ buf.length) (hpatlen : 1 ≤ patlen)
    (hpat : patlen = pat.length) (hshift : 0 ≤ patshift) (hfuel : buflen < fuel) :
    ∃ ret, patternCheck fuel buf buflen pat patlen patshift = some (.ok ret) ∧
      (ret = 0 ∨ ret = -1) ∧
      (ret = 0 ↔ ∀ i : ℕ, i < buflen → buf[i]? = pat[((i + patshift) % patlen).toNat]?) := by
  obtain ⟨len, rfl⟩ := Int.eq_ofNat_of_zero_le hbuflen
  obtain ⟨shift, rfl⟩ := Int.eq_ofNat_of_zero_le hshift
  subst hpat
  have hlen : len ≤ buf.length := by omega
  have hmod : shift % pat.length < pat.length := Nat.mod_lt _ (by omega)
  have hiff : Matches buf pat (shift % pat.length) len ↔
      ∀ i : ℕ, (i : ℤ) < len →
        buf[i]? = pat[(((i : ℤ) + shift) % pat.length).toNat]? := by
    refine forall_congr' fun i => ?_
    rw [Nat.add_mod_mod]
    norm_cast
  suffices hrun : ∃ r, patternCheck fuel buf len pat pat.length shift = some r ∧
      Judges buf pat (shift % pat.length) len r by
    obtain ⟨r, hr, ⟨rfl, hall⟩ | ⟨rfl, hnot⟩⟩ := hrun
    · exact ⟨0, hr, .inl rfl, iff_of_true rfl (hiff.mp hall)⟩
    · exact ⟨-1, hr, .inr rfl, iff_of_false (by decide) fun hall => hnot (hiff.mpr hall)⟩
  have htmod : (if (pat.length : ℤ) ≠ 0 then (shift : ℤ).tmod pat.length else shift) =
      (shift % pat.length : ℕ) := by
    rw [if_pos (by omega), Int.ofNat_tmod]
  have hq : (0 + shift % pat.length) % pat.length = shift % pat.length := by
    rw [Nat.zero_add, Nat.mod_mod]
  have hzero : Matches buf pat (shift % pat.length) 0 := fun _ hi => absurd hi (Nat.not_lt_zero _)
  rw [patternCheck, htmod, ← Int.ofNat_sub (Nat.le_of_lt hmod)]
  by_cases hshort : len < pat.length - shift % pat.length
  · obtain ⟨cmp, hcmp, hdecides⟩ := memcmp_pat buf (n := len) (by omega) hq (by omega)
    rw [show ((0 : ℕ) : ℤ) = 0 from rfl] at hcmp
    rw [if_pos (by omega), hcmp]
    exact ⟨_, rfl, hdecides.judges_last hzero (Nat.zero_add _)⟩
  · obtain ⟨cmp, hcmp, hdecides⟩ := memcmp_pat buf
      (n := pat.length - shift % pat.length) (by omega) hq (by omega)
    rw [show ((0 : ℕ) : ℤ) = 0 from rfl] at hcmp
    rw [if_neg (by omega), hcmp]
    dsimp only
    by_cases hcz : cmp = 0
    · rw [if_neg (not_not_intro hcz)]
      refine checkSecond_of_shows hlen hmod (by omega) (by omega) ?_
      have hshows := hdecides.go_on hcz hzero
      rwa [Nat.zero_add] at hshows
    · rw [if_pos hcz]
      exact ⟨_, rfl, hdecides.judges_neg hcz (by omega)⟩

theorem patternCheck_fourBytes :
    ∃ ret, patternCheck 5 [98, 99, 97, 97] 4 [97, 98, 99] 3 1 = some (.ok ret) ∧
      (ret = 0 ∨ ret = -1) ∧
      (ret = 0 ↔ ∀ i : ℕ, (i : ℤ) < 4 → ([98, 99, 97, 97] : List UInt8)[i]? =
        ([97, 98, 99] : List UInt8)[(((i : ℤ) + 1) % 3).toNat]?) :=
  patternCheck_spec (by decide) (by decide) (by decide) (by decide) (by decide) (by decide)

end Pattern

end SnowballLtp
