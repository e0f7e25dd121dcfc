import Mathlib.Data.List.Infix
import Mathlib.Data.Nat.Bitwise
/-!
# Strings — looking for a string in a string

`strstr` takes both lengths, and compares the needle with the bytes at
each place where it fits, from the left. The two loops that end at a
byte or at a count take fuel; each routine gives the places it has read
along with its result. A string is a list of bytes that are not zero,
with a terminator behind them; addresses are words of 64 bits and may
wrap inside it.
-/

namespace Kos

namespace Search

/-- `strlen`, with `len` counted so far. -/
def strlen (mem : BitVec 64 → UInt8) (s : BitVec 64) :
    ℕ → BitVec 64 → Option (BitVec 64 × List (BitVec 64))
  | 0, _ => none
  | fuel + 1, len =>
    if mem (s + len) ≠ 0 then
      (strlen mem s fuel (len + 1#64)).map fun (n, reads) => (n, (s + len) :: reads)
    else some (len, [s + len])

/-- `memcmp`. -/
def memcmp (mem : BitVec 64 → UInt8) (p1 p2 : BitVec 64) : ℕ → ℤ × List (BitVec 64)
  | 0 => (0, [])
  | n + 1 =>
    if mem p1 ≠ mem p2 then ((mem p1).toNat - (mem p2).toNat, [p1, p2])
    else
      let (c, reads) := memcmp mem (p1 + 1#64) (p2 + 1#64) n
      (c, p1 :: p2 :: reads)

/-- The loop of `strstr`, from `i` on. -/
def strstrFrom (mem : BitVec 64 → UInt8) (haystack needle hlen nlen : BitVec 64) :
    ℕ → BitVec 64 → Option (Option (BitVec 64) × List (BitVec 64))
  | 0, _ => none
  | fuel + 1, i =>
    if i ≤ hlen - nlen then
      let (c, reads) := memcmp mem (haystack + i) needle nlen.toNat
      if c = 0 then some (some (haystack + i), reads)
      else
        (strstrFrom mem haystack needle hlen nlen fuel (i + 1#64)).map fun (p, reads') =>
          (p, reads ++ reads')
    else some (none, [])

/-- `strstr`; `NULL` is `none`. -/
def strstr (mem : BitVec 64 → UInt8) (haystack needle : BitVec 64) (fuel : ℕ) :
    Option (Option (BitVec 64) × List (BitVec 64)) := do
  let (hlen, reads) ← strlen mem haystack fuel 0
  let (nlen, reads') ← strlen mem needle fuel 0
  if hlen ≥ nlen then
    let (p, reads'') ← strstrFrom mem haystack needle hlen nlen fuel 0
    return (p, reads ++ reads' ++ reads'')
  else return (none, reads ++ reads')

/-! ## Strings in memory -/

variable {mem : BitVec 64 → UInt8} {s hay needle p1 p2 : BitVec 64} {bs hs ns : List UInt8}
  {fuel k n : ℕ}

/-- The place `k` bytes on. -/
def place (s : BitVec 64) (k : ℕ) : BitVec 64 := s + BitVec.ofNat 64 k

theorem place_zero (s : BitVec 64) : place s 0 = s := BitVec.add_zero s

theorem place_place (s : BitVec 64) (j k : ℕ) : place (place s j) k = place s (j + k) := by
  rw [place, place, place, BitVec.add_assoc, BitVec.ofNat_add]

/-- **A string**: the bytes are at its places, none of them zero, and the
terminator is behind them. -/
structure IsString (mem : BitVec 64 → UInt8) (s : BitVec 64) (bs : List UInt8) : Prop where
  bytes : ∀ k (hk : k < bs.length), mem (place s k) = bs[k]
  nonzero : 0 ∉ bs
  terminator : mem (place s bs.length) = 0

theorem IsString.ne_zero (h : IsString mem s bs) (hk : k < bs.length) : mem (place s k) ≠ 0 := by
  intro hzero
  rw [h.bytes k hk] at hzero
  exact h.nonzero (hzero ▸ List.getElem_mem hk)

/-- A string ends before its places come round. -/
theorem IsString.length_lt (h : IsString mem s bs) : bs.length < 2 ^ 64 := by
  by_contra hge
  have hround : place s bs.length = place s (bs.length - 2 ^ 64) := by
    rw [place, place, show BitVec.ofNat 64 bs.length = BitVec.ofNat 64 (bs.length - 2 ^ 64) from
      BitVec.eq_of_toNat_eq (by rw [BitVec.toNat_ofNat, BitVec.toNat_ofNat]; omega)]
  refine h.ne_zero (k := bs.length - 2 ^ 64) (by omega) ?_
  rw [← hround]
  exact h.terminator

/-! ## `strlen` and `memcmp` -/

/-- **`strlen` counts the bytes** and reads no further than the terminator. -/
theorem strlen_spec (h : IsString mem s bs) (hk : k ≤ bs.length) (hfuel : bs.length - k < fuel) :
    ∃ reads, strlen mem s fuel (BitVec.ofNat 64 k) = some (BitVec.ofNat 64 bs.length, reads) ∧
      ∀ x ∈ reads, ∃ j ≤ bs.length, x = place s j := by
  induction fuel generalizing k with
  | zero => exact absurd hfuel (Nat.not_lt_zero _)
  | succ fuel ih =>
    rw [strlen]
    rcases Nat.lt_or_eq_of_le hk with hlt | rfl
    · have hne : mem (s + BitVec.ofNat 64 k) ≠ 0 := h.ne_zero hlt
      obtain ⟨reads, hrest, hreads⟩ := ih hlt (by omega)
      rw [if_pos hne, ← BitVec.ofNat_add, hrest]
      exact ⟨_, rfl, List.forall_mem_cons.2 ⟨⟨k, hk, rfl⟩, hreads⟩⟩
    · have hend : ¬ mem (s + BitVec.ofNat 64 bs.length) ≠ 0 := not_not_intro h.terminator
      rw [if_neg hend]
      exact ⟨_, rfl, List.forall_mem_singleton.2 ⟨_, hk, rfl⟩⟩

/-- **`memcmp` is zero for bytes that are the same**, and reads no others. -/
theorem memcmp_spec (mem : BitVec 64 → UInt8) (p1 p2 : BitVec 64) (n : ℕ) :
    ((memcmp mem p1 p2 n).1 = 0 ↔ ∀ k < n, mem (place p1 k) = mem (place p2 k)) ∧
      ∀ x ∈ (memcmp mem p1 p2 n).2, ∃ k < n, x = place p1 k ∨ x = place p2 k := by
  induction n generalizing p1 p2 with
  | zero => exact ⟨iff_of_true rfl fun k hk => absurd hk (Nat.not_lt_zero k), by simp [memcmp]⟩
  | succ n ih =>
    have hnext : ∀ p k, place (p + 1#64) k = place p (k + 1) := fun p k => by
      rw [Nat.add_comm, ← place_place]
      rfl
    obtain ⟨hzero, hreads⟩ := ih (p1 + 1#64) (p2 + 1#64)
    simp only [hnext] at hzero hreads
    rw [memcmp]
    by_cases hfirst : mem p1 = mem p2
    · rw [if_neg (not_not_intro hfirst)]
      refine ⟨hzero.trans ⟨fun h k hk => ?_, fun h k hk => h (k + 1) (by omega)⟩, ?_⟩
      · cases k with
        | zero => rwa [place_zero, place_zero]
        | succ k => exact h k (by omega)
      · refine List.forall_mem_cons.2 ⟨⟨0, by omega, Or.inl (place_zero p1).symm⟩,
          List.forall_mem_cons.2 ⟨⟨0, by omega, Or.inr (place_zero p2).symm⟩, fun x hx => ?_⟩⟩
        obtain ⟨k, hk, hx⟩ := hreads x hx
        exact ⟨k + 1, by omega, hx⟩
    · rw [if_pos hfirst]
      refine ⟨iff_of_false (fun h => hfirst ?_) fun h => hfirst ?_, ?_⟩
      · -- the difference of two bytes is zero for equal bytes only
        exact UInt8.toNat_inj.1 (by omega)
      · have h0 := h 0 (by omega)
        rwa [place_zero, place_zero] at h0
      · exact List.forall_mem_cons.2 ⟨⟨0, by omega, Or.inl (place_zero p1).symm⟩,
          List.forall_mem_singleton.2 ⟨0, by omega, Or.inr (place_zero p2).symm⟩⟩

/-- Where the needle fits, comparing it says whether it is there. -/
theorem memcmp_eq_zero_iff (hh : IsString mem hay hs) (hn : IsString mem needle ns)
    (hfit : k + ns.length ≤ hs.length) :
    (memcmp mem (place hay k) needle ns.length).1 = 0 ↔ ns <+: hs.drop k := by
  have hbyte : ∀ j (hj : j < ns.length), mem (place (place hay k) j) = hs[k + j] := by
    intro j hj
    rw [place_place]
    exact hh.bytes (k + j) (by omega)
  rw [(memcmp_spec ..).1, List.prefix_iff_getElem]
  constructor
  · intro h
    refine ⟨by rw [List.length_drop]; omega, fun j hj => ?_⟩
    rw [List.getElem_drop, ← hbyte j hj, h j hj, hn.bytes j hj]
  · rintro ⟨_, h⟩ j hj
    rw [hbyte j hj, hn.bytes j hj, h j hj, List.getElem_drop]

/-! ## `strstr` -/

/-- **What `strstr` is to return**: the leftmost place where the needle is
in the haystack, and `NULL` where it is not in it. -/
structure Leftmost (hay : BitVec 64) (hs ns : List UInt8) (r : Option (BitVec 64)) : Prop where
  found : ∀ p, r = some p →
    ∃ i ≤ hs.length, p = place hay i ∧ ns <+: hs.drop i ∧ ∀ j < i, ¬ ns <+: hs.drop j
  null : r = none ↔ ¬ ns <:+: hs

/-- A read up to the terminator of either string. -/
def Within (hay needle : BitVec 64) (hs ns : List UInt8) (x : BitVec 64) : Prop :=
  (∃ j ≤ hs.length, x = place hay j) ∨ ∃ j ≤ ns.length, x = place needle j

theorem reads_within (hay needle : BitVec 64) {i : ℕ} {reads : List (BitVec 64)}
    (hroom : i + ns.length ≤ hs.length)
    (h : ∀ x ∈ reads, ∃ k < ns.length, x = place (place hay i) k ∨ x = place needle k) :
    ∀ x ∈ reads, Within hay needle hs ns x := by
  intro x hx
  obtain ⟨k, hk, rfl | rfl⟩ := h x hx
  · exact Or.inl ⟨i + k, by omega, place_place hay i k⟩
  · exact Or.inr ⟨k, hk.le, rfl⟩

theorem leftmost_of_prefix {i : ℕ} (hi : i ≤ hs.length) (hthere : ns <+: hs.drop i)
    (hleft : ∀ j < i, ¬ ns <+: hs.drop j) : Leftmost hay hs ns (some (place hay i)) := by
  refine ⟨fun p hp => ⟨i, hi, (Option.some.inj hp).symm, hthere, hleft⟩, ?_⟩
  exact iff_of_false (Option.some_ne_none _)
    (not_not_intro (hthere.isInfix.trans (List.drop_suffix i hs).isInfix))

/-- Nowhere further to the right is there room for the needle. -/
theorem leftmost_none (h : ∀ i, i + ns.length ≤ hs.length → ¬ ns <+: hs.drop i) :
    Leftmost hay hs ns none := by
  refine ⟨fun p hp => (Option.some_ne_none p hp.symm).elim, iff_of_true rfl ?_⟩
  rintro ⟨l, r, rfl⟩
  refine h l.length ?_ ?_
  · simp only [List.length_append]
    omega
  · rw [List.append_assoc, List.drop_left]
    exact List.prefix_append ns r

/-- The empty needle is at the start. -/
theorem Leftmost.empty {r : Option (BitVec 64)} (h : Leftmost hay hs [] r) : r = some hay := by
  cases r with
  | none => exact absurd List.nil_infix (h.null.1 rfl)
  | some p =>
    obtain ⟨i, -, rfl, -, hleft⟩ := h.found p rfl
    have hi : i = 0 := by
      by_contra hne
      exact hleft 0 (Nat.pos_of_ne_zero hne) List.nil_prefix
    rw [hi, place_zero]

section Loop

variable (hh : IsString mem hay hs) (hn : IsString mem needle ns)
include hh hn

/-- **The loop**, when the needle is at none of the places it has passed. -/
theorem strstrFrom_spec {i : ℕ} (hle : ns.length ≤ hs.length) (hi : i ≤ hs.length - ns.length + 1)
    (hleft : ∀ j < i, ¬ ns <+: hs.drop j) (hfuel : hs.length - ns.length + 1 - i < fuel) :
    ∃ r reads, strstrFrom mem hay needle (BitVec.ofNat 64 hs.length) (BitVec.ofNat 64 ns.length)
        fuel (BitVec.ofNat 64 i) = some (r, reads) ∧
      Leftmost hay hs ns r ∧ ∀ x ∈ reads, Within hay needle hs ns x := by
  have hhlen := hh.length_lt
  have hnlen : (BitVec.ofNat 64 ns.length).toNat = ns.length := by
    rw [BitVec.toNat_ofNat]
    omega
  induction fuel generalizing i with
  | zero => exact absurd hfuel (Nat.not_lt_zero _)
  | succ fuel ih =>
    -- the empty needle is at the first place, so `i` does not come round
    have hlt : i < 2 ^ 64 := by
      by_contra hge
      have hempty : ns = [] := List.eq_nil_of_length_eq_zero (by omega)
      refine hleft 0 (by omega) ?_
      rw [hempty]
      exact List.nil_prefix
    have htest : BitVec.ofNat 64 i ≤ BitVec.ofNat 64 hs.length - BitVec.ofNat 64 ns.length ↔
        i ≤ hs.length - ns.length := by
      rw [BitVec.le_def, BitVec.toNat_sub, hnlen, BitVec.toNat_ofNat, BitVec.toNat_ofNat]
      omega
    rw [strstrFrom]
    by_cases hfit : i ≤ hs.length - ns.length
    · have hroom : i + ns.length ≤ hs.length := by omega
      have hcmp := memcmp_eq_zero_iff hh hn hroom
      have hcmpReads := reads_within hay needle hroom (memcmp_spec mem (place hay i) needle _).2
      rw [if_pos (htest.2 hfit), hnlen]
      change (memcmp mem (hay + BitVec.ofNat 64 i) needle ns.length).1 = 0 ↔ _ at hcmp
      change ∀ x ∈ (memcmp mem (hay + BitVec.ofNat 64 i) needle ns.length).2, _ at hcmpReads
      generalize memcmp mem (hay + BitVec.ofNat 64 i) needle ns.length = res at hcmp hcmpReads ⊢
      obtain ⟨c, reads⟩ := res
      dsimp only at hcmp hcmpReads ⊢
      by_cases hc : c = 0
      · rw [if_pos hc]
        exact ⟨_, _, rfl, leftmost_of_prefix (by omega) (hcmp.1 hc) hleft, hcmpReads⟩
      · have hpassed : ∀ j < i + 1, ¬ ns <+: hs.drop j := by
          intro j hj
          rcases Nat.lt_succ_iff_lt_or_eq.1 hj with hlt | rfl
          · exact hleft j hlt
          · exact fun hthere => hc (hcmp.2 hthere)
        obtain ⟨r, reads', hrest, hfound, hreads⟩ := ih (by omega) hpassed (by omega)
        rw [if_neg hc, ← BitVec.ofNat_add, hrest]
        exact ⟨r, _, rfl, hfound, List.forall_mem_append.2 ⟨hcmpReads, hreads⟩⟩
    · rw [if_neg fun h => hfit (htest.1 h)]
      exact ⟨none, [], rfl, leftmost_none fun j hj => hleft j (by omega), by simp⟩

/-- **`strstr` finds the leftmost occurrence**, the start of the haystack
for an empty needle, gives `NULL` exactly where there is none, and reads
neither string past its terminator. -/
theorem strstr_leftmost (hfuel : hs.length + ns.length + 1 < fuel) :
    ∃ r reads, strstr mem hay needle fuel = some (r, reads) ∧ Leftmost hay hs ns r ∧
      (ns = [] → r = some hay) ∧ ∀ x ∈ reads, Within hay needle hs ns x := by
  have hhlen := hh.length_lt
  have hnlen := hn.length_lt
  have hzero : (0 : BitVec 64) = BitVec.ofNat 64 0 := rfl
  obtain ⟨reads, hlen, hreads⟩ := strlen_spec hh (Nat.zero_le _) (by omega : _ < fuel)
  obtain ⟨reads', hlen', hreads'⟩ := strlen_spec hn (Nat.zero_le _) (by omega : _ < fuel)
  have hlens : ∀ x ∈ reads ++ reads', Within hay needle hs ns x :=
    List.forall_mem_append.2 ⟨fun x hx => Or.inl (hreads x hx), fun x hx => Or.inr (hreads' x hx)⟩
  have htest : BitVec.ofNat 64 hs.length ≥ BitVec.ofNat 64 ns.length ↔ ns.length ≤ hs.length := by
    rw [ge_iff_le, BitVec.le_def, BitVec.toNat_ofNat, BitVec.toNat_ofNat]
    omega
  simp only [strstr]
  rw [hzero, hlen, hlen']
  simp only [Option.bind_eq_bind, Option.bind_some]
  by_cases hle : ns.length ≤ hs.length
  · obtain ⟨r, reads'', hloop, hfound, hreads''⟩ := strstrFrom_spec hh hn (i := 0) hle (by omega)
      (fun j hj => absurd hj (Nat.not_lt_zero j)) (by omega : _ < fuel)
    rw [if_pos (htest.2 hle), hloop]
    exact ⟨r, _, rfl, hfound, fun hempty => (hempty ▸ hfound).empty,
      List.forall_mem_append.2 ⟨hlens, hreads''⟩⟩
  · have hnone : Leftmost hay hs ns none := leftmost_none fun i hi => absurd hi (by omega)
    rw [if_neg fun h => hle (htest.1 h)]
    exact ⟨none, _, rfl, hnone, fun hempty => (hempty ▸ hnone).empty, hlens⟩

end Loop

/-- The string `ABAB` at 100 and `BA` at 200. -/
def twoStrings (x : BitVec 64) : UInt8 :=
  if x = 100 then 65 else if x = 101 then 66 else if x = 102 then 65 else if x = 103 then 66
  else if x = 200 then 66 else if x = 201 then 65 else 0

/-- One is in the other, one byte on. -/
theorem strstr_leftmost_two :
    ∃ r reads, strstr twoStrings 100 200 8 = some (r, reads) ∧
      Leftmost 100 [65, 66, 65, 66] [66, 65] r ∧ (([66, 65] : List UInt8) = [] → r = some 100) ∧
        ∀ x ∈ reads, Within 100 200 [65, 66, 65, 66] [66, 65] x :=
  strstr_leftmost ⟨by decide, by decide, by decide⟩ ⟨by decide, by decide, by decide⟩ (by decide)

end Search

end Kos
