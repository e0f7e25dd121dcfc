import Kos.Common.ByteMem
import Kos.Common.Word
/-!
# Common — the page walk of the processor

Four levels of tables in memory, each of 512 words, a word for the 9 bits
of the address that the level goes by. A word of the third level, or of
the second, may map a large page itself. A translation may be written
through if every word on the way to it allows it. The walk reads four
words at most, so a result about it is one about the words it meets.
-/

namespace Kos

namespace PageWalk

/-- What an address is translated to. -/
structure Mapping where
  phys : ℕ
  writable : Bool
  pageSize : ℕ
  deriving DecidableEq, Repr

/-- The present bit. -/
def present (e : ℕ) : Bool := e.testBit 0

/-- The bit that allows writing. -/
def writable (e : ℕ) : Bool := e.testBit 1

/-- The bit of a large page. -/
def large (e : ℕ) : Bool := e.testBit 7

/-- The address in a word, of a table or a page of `2 ^ k` bytes. -/
def address (k e : ℕ) : ℕ := e &&& (2 ^ 52 - 2 ^ k)

/-- The word of a table for an address, at the level that goes by the bits
from `k` on. -/
def entry (mem : ByteMem) (table v k : ℕ) : ℕ := mem.load (table + 8 * (v / 2 ^ k % 512)) 8

/-- A page of `2 ^ k` bytes. -/
def page (k e v : ℕ) (w : Bool) : Mapping := ⟨address k e + v % 2 ^ k, w && writable e, 2 ^ k⟩

/-- The last level. -/
def walkPt (mem : ByteMem) (pt v : ℕ) (w : Bool) : Option Mapping :=
  let e := entry mem pt v 12
  if present e then some (page 12 e v w) else none

/-- The level of 2 MB pages. -/
def walkPd (mem : ByteMem) (pd v : ℕ) (w : Bool) : Option Mapping :=
  let e := entry mem pd v 21
  if present e then
    if large e then some (page 21 e v w) else walkPt mem (address 12 e) v (w && writable e)
  else none

/-- The level of 1 GB pages. -/
def walkPdpt (mem : ByteMem) (pdpt v : ℕ) (w : Bool) : Option Mapping :=
  let e := entry mem pdpt v 30
  if present e then
    if large e then some (page 30 e v w) else walkPd mem (address 12 e) v (w && writable e)
  else none

/-- **The walk** from the table that `cr3` names. -/
def walk (mem : ByteMem) (cr3 v : ℕ) : Option Mapping :=
  let e := entry mem (address 12 cr3) v 39
  if present e then walkPdpt mem (address 12 e) v (writable e) else none

variable {mem : ByteMem} {table v k a : ℕ} {w : Bool}

/-! ## Words -/

theorem address_eq {e : ℕ} (hk : k ≤ 52) (he : e < 2 ^ 52) : address k e = 2 ^ k * (e / 2 ^ k) :=
  land_two_pow_sub_two_pow he hk

/-- A word that links a table that may be written through. -/
structure Links (e t : ℕ) : Prop where
  word : e = t + 3
  aligned : 4096 ∣ t
  bound : t < 2 ^ 52

theorem Links.present {e t : ℕ} (h : Links e t) : present e = true := by
  obtain ⟨rfl, ⟨q, rfl⟩, -⟩ := h
  rw [PageWalk.present, Nat.testBit_eq_decide_div_mod_eq, decide_eq_true_eq]
  omega

theorem Links.writable {e t : ℕ} (h : Links e t) : writable e = true := by
  obtain ⟨rfl, ⟨q, rfl⟩, -⟩ := h
  rw [PageWalk.writable, Nat.testBit_eq_decide_div_mod_eq, decide_eq_true_eq]
  omega

theorem Links.large {e t : ℕ} (h : Links e t) : large e = false := by
  obtain ⟨rfl, ⟨q, rfl⟩, -⟩ := h
  rw [PageWalk.large, Nat.testBit_eq_decide_div_mod_eq, decide_eq_false_iff_not]
  omega

theorem Links.address {e t : ℕ} (h : Links e t) : address 12 e = t := by
  obtain ⟨rfl, ⟨q, rfl⟩, hlt⟩ := h
  rw [address_eq (by decide) (by omega)]
  omega

/-! ## Levels -/

theorem walk_link {t : ℕ} (hcr3 : 4096 ∣ table) (hlt : table < 2 ^ 52)
    (h : Links (entry mem table v 39) t) : walk mem table v = walkPdpt mem t v true := by
  have htable : address 12 table = table := by
    rw [address_eq (by decide) hlt]
    omega
  rw [walk, htable, if_pos h.present, h.address, h.writable]

theorem walkPdpt_link {t : ℕ} (h : Links (entry mem table v 30) t) :
    walkPdpt mem table v w = walkPd mem t v w := by
  rw [walkPdpt, if_pos h.present, if_neg (by rw [h.large]; decide), h.address, h.writable,
    Bool.and_true]

theorem walkPd_link {t : ℕ} (h : Links (entry mem table v 21) t) :
    walkPd mem table v w = walkPt mem t v w := by
  rw [walkPd, if_pos h.present, if_neg (by rw [h.large]; decide), h.address, h.writable,
    Bool.and_true]

/-- A page of the last level. -/
theorem walkPt_page (h : Links (entry mem table v 12) a) :
    walkPt mem table v w = some ⟨a + v % 2 ^ 12, w, 2 ^ 12⟩ := by
  rw [walkPt, if_pos h.present, page, h.address, h.writable, Bool.and_true]

/-- A page of the level above it. -/
theorem walkPd_page (h : entry mem table v 21 = a + 0x83) (ha : 2 ^ 21 ∣ a) (hlt : a < 2 ^ 52) :
    walkPd mem table v w = some ⟨a + v % 2 ^ 21, w, 2 ^ 21⟩ := by
  obtain ⟨q, rfl⟩ := ha
  have hbits : present (2 ^ 21 * q + 0x83) = true ∧ writable (2 ^ 21 * q + 0x83) = true ∧
      large (2 ^ 21 * q + 0x83) = true := by
    unfold present writable large
    simp only [Nat.testBit_eq_decide_div_mod_eq, decide_eq_true_eq]
    omega
  have haddress : address 21 (2 ^ 21 * q + 0x83) = 2 ^ 21 * q := by
    rw [address_eq (by decide) (by omega)]
    omega
  rw [walkPd, h, if_pos hbits.1, if_pos hbits.2.2, page, haddress, hbits.2.1, Bool.and_true]

end PageWalk

end Kos
