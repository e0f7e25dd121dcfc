import Kos.Console.Numbers
/-!
# Console — `kvprintf`

`kvprintf` goes through the format a character at a time, and takes an
argument from the list where it knows the conversion. What it does not
know it prints as it stands, without taking the argument that stands for
it, so every later conversion prints the argument of one before. What it
prints is recorded with what it was printed for: a character of the
format, or an argument by its position.
-/

namespace Kos

namespace Console

/-- A character by its letter. -/
def ch (c : Char) : Character := BitVec.ofNat 8 c.toNat

/-- What has been printed: a character of the format, or what stands for
argument `k`. -/
inductive Printed
  | text (c : Character)
  | arg (k : ℕ) (cs : List Character)
  deriving DecidableEq, Repr

/-- What `kvprintf` reads: the argument list, each argument in a slot of 64
bits, the strings that pointers lead to, and what is on the stack where
`print_dec` has its buffer. -/
structure Args where
  slot : ℕ → BitVec 64
  string : BitVec 64 → List Character
  stack : Traced Character

variable (a : Args)

/-- `if (s) while (*s) vga_putchar(*s++)`. -/
def putString (s : BitVec 64) : List Character := if s = 0 then [] else a.string s

/-- `va_arg(args, int)` as the argument of `print_dec`: the sign is
extended. -/
def intArg (w : BitVec 64) : BitVec 64 := (w.setWidth 32).signExtend 64

/-- `va_arg(args, unsigned int)`. -/
def uintArg (w : BitVec 64) : BitVec 64 := (w.setWidth 32).setWidth 64

/-- One thing printed, and what comes after it. -/
def emit (p : Printed) (r : List Printed × ℕ) : List Printed × ℕ := (p :: r.1, r.2)

/-- `kvprintf`, from argument `k` on: what is printed, and the argument
that would be taken next. -/
def kvprintf : List Character → ℕ → List Printed × ℕ
  | [], k => ([], k)
  | [c], k => emit (.text c) ([], k)
  | c :: f :: fmt, k =>
    if c ≠ ch '%' then emit (.text c) (kvprintf (f :: fmt) k)
    else if f = ch 's' then emit (.arg k (putString a (a.slot k))) (kvprintf fmt (k + 1))
    else if f = ch 'd' ∨ f = ch 'i' then
      emit (.arg k (printDec a.stack (intArg (a.slot k))).1) (kvprintf fmt (k + 1))
    else if f = ch 'u' then
      emit (.arg k (printDec a.stack (uintArg (a.slot k))).1) (kvprintf fmt (k + 1))
    else if f = ch 'x' then
      emit (.arg k (printHex (uintArg (a.slot k)) 8)) (kvprintf fmt (k + 1))
    else if f = ch 'l' then
      match fmt with
      | [] => ([], k)
      | m :: fmt' =>
        if m = ch 'x' then emit (.arg k (printHex (a.slot k) 16)) (kvprintf fmt' (k + 1))
        else if m = ch 'u' then
          emit (.arg k (printDec a.stack (a.slot k)).1) (kvprintf fmt' (k + 1))
        -- nothing is printed, and the next character is like any other
        else kvprintf (m :: fmt') k
    else if f = ch 'p' then
      emit (.arg k (ch '0' :: ch 'x' :: printHex (a.slot k) 16)) (kvprintf fmt (k + 1))
    else if f = ch 'c' then
      emit (.arg k [((a.slot k).setWidth 32).setWidth 8]) (kvprintf fmt (k + 1))
    else if f = ch '%' then emit (.text (ch '%')) (kvprintf fmt k)
    else emit (.text (ch '%')) (emit (.text f) (kvprintf fmt k))
  termination_by structural fmt => fmt

/-! ## Formats -/

/-- `l`, `z` or neither. -/
inductive Modifier
  | none
  | l
  | z
  deriving DecidableEq, Repr

/-- What a conversion is of. -/
inductive Conversion
  | s
  | d
  | i
  | u
  | x
  | X
  | p
  | c
  deriving DecidableEq, Repr

def Modifier.chars : Modifier → List Character
  | none => []
  | l => [ch 'l']
  | z => [ch 'z']

def Conversion.char : Conversion → Character
  | s => ch 's'
  | d => ch 'd'
  | i => ch 'i'
  | u => ch 'u'
  | x => ch 'x'
  | X => ch 'X'
  | p => ch 'p'
  | c => ch 'c'

/-- A directive for one argument. A width of zero is none. -/
structure Directive where
  zero : Bool
  width : ℕ
  modifier : Modifier
  conversion : Conversion
  deriving DecidableEq, Repr

/-- The directive as it is written. -/
def Directive.chars (v : Directive) : List Character :=
  ch '%' :: ((if v.zero then [ch '0'] else []) ++ decimal v.width ++ v.modifier.chars ++
    [v.conversion.char])

/-- A part of a format: a character, `%%` or a directive. -/
inductive Piece
  | text (c : Character) (hnul : c ≠ 0) (hpercent : c ≠ ch '%')
  | percent
  | directive (v : Directive)

def Piece.chars : Piece → List Character
  | text c _ _ => [c]
  | percent => [ch '%', ch '%']
  | directive v => v.chars

/-- The format that is written with these pieces. -/
def format (ps : List Piece) : List Character := ps.flatMap Piece.chars

/-- Its directives. -/
def directives : List Piece → List Directive
  | [] => []
  | .directive v :: ps => v :: directives ps
  | .text _ _ _ :: ps | .percent :: ps => directives ps

/-! ## What a directive prints -/

/-- **The directives `kvprintf` knows**: without flag and width, and with
no modifier but `l` before `x` and `u`. -/
def Directive.Supported (v : Directive) : Prop :=
  v.zero = false ∧ v.width = 0 ∧
    match v.modifier with
    | .none => v.conversion ≠ .X
    | .l => v.conversion = .x ∨ v.conversion = .u
    | .z => False

/-- What it prints for the argument `w`. -/
def Directive.rendered (v : Directive) (w : BitVec 64) : List Character :=
  match v.conversion with
  | .s => putString a w
  | .d | .i => (printDec a.stack (intArg w)).1
  | .u => (printDec a.stack (if v.modifier = .l then w else uintArg w)).1
  | .x | .X => if v.modifier = .l then printHex w 16 else printHex (uintArg w) 8
  | .p => ch '0' :: ch 'x' :: printHex w 16
  | .c => [(w.setWidth 32).setWidth 8]

variable {a} {v : Directive} {fmt : List Character} {k : ℕ}

/-- A character that is not a `%` is printed. -/
theorem kvprintf_text {c : Character} (hc : c ≠ ch '%') :
    kvprintf a (c :: fmt) k = emit (.text c) (kvprintf a fmt k) := by
  cases fmt with
  | nil => rfl
  | cons f fmt =>
    rw [kvprintf.eq_def]
    exact if_pos hc

theorem kvprintf_percent :
    kvprintf a (ch '%' :: ch '%' :: fmt) k = emit (.text (ch '%')) (kvprintf a fmt k) := by
  rw [kvprintf.eq_def]
  rfl

/-- Without a zero and a width only letters follow the `%`. -/
theorem Directive.chars_plain (modifier : Modifier) (conversion : Conversion) :
    (Directive.mk false 0 modifier conversion).chars =
      ch '%' :: (modifier.chars ++ [conversion.char]) := by
  unfold Directive.chars
  rw [decimal_zero]
  rfl

/-- **A directive it knows** prints its argument and takes it. -/
theorem kvprintf_supported (h : v.Supported) :
    kvprintf a (v.chars ++ fmt) k =
      emit (.arg k (v.rendered a (a.slot k))) (kvprintf a fmt (k + 1)) := by
  obtain ⟨zero, width, modifier, conversion⟩ := v
  obtain ⟨rfl, rfl, h⟩ := h
  rw [Directive.chars_plain, kvprintf.eq_def]
  cases modifier with
  | none =>
    have hX : conversion ≠ .X := h
    cases conversion <;> first | rfl | exact (hX rfl).elim
  | l => rcases h with rfl | rfl <;> rfl
  | z => exact h.elim

/-- The letters that may follow a `%`. -/
def letters : List Character :=
  [ch 's', ch 'd', ch 'i', ch 'u', ch 'x', ch 'l', ch 'p', ch 'c', ch '%']

/-- With anything else after the `%`, both are printed as they stand. -/
theorem kvprintf_unknown {f : Character} (hf : f ∉ letters) :
    kvprintf a (ch '%' :: f :: fmt) k =
      emit (.text (ch '%')) (emit (.text f) (kvprintf a fmt k)) := by
  simp only [letters, List.mem_cons, List.not_mem_nil, or_false, not_or] at hf
  obtain ⟨hs, hd, hi, hu, hx, hl, hp, hc, hpercent⟩ := hf
  rw [kvprintf.eq_def]
  dsimp only
  rw [if_neg (not_not_intro rfl), if_neg hs, if_neg (not_or.2 ⟨hd, hi⟩), if_neg hu, if_neg hx,
    if_neg hl, if_neg hp, if_neg hc, if_neg hpercent]

/-- After an `l`, what is neither `x` nor `u` is printed as it stands. -/
theorem kvprintf_long {c : Character} (hx : c ≠ ch 'x') (hu : c ≠ ch 'u') (hc : c ≠ ch '%') :
    kvprintf a (ch '%' :: ch 'l' :: c :: fmt) k = emit (.text c) (kvprintf a fmt k) := by
  rw [← kvprintf_text hc, kvprintf.eq_def]
  exact (if_neg hx).trans (if_neg hu)

theorem Conversion.char_ne (conversion : Conversion) : conversion.char ≠ ch '%' := by
  cases conversion <;> decide

/-- **A directive it does not know** has a character of it printed first. -/
theorem kvprintf_unsupported (h : ¬ v.Supported) :
    ∃ c es, (kvprintf a (v.chars ++ fmt) k).1 = .text c :: es := by
  have hunknown : ∀ f cs, f ∉ letters → v.chars = ch '%' :: f :: cs →
      ∃ c es, (kvprintf a (v.chars ++ fmt) k).1 = .text c :: es := by
    intro f cs hf heq
    rw [heq, List.cons_append, List.cons_append, kvprintf_unknown hf]
    exact ⟨ch '%', _, rfl⟩
  obtain ⟨zero, width, modifier, conversion⟩ := v
  cases zero with
  | true => exact hunknown (ch '0') _ (by decide) rfl
  | false =>
    rcases Nat.eq_zero_or_pos width with rfl | hwidth
    · cases modifier with
      | none =>
        have hX : conversion = .X := by
          by_contra hne
          exact h ⟨rfl, rfl, hne⟩
        subst hX
        exact hunknown (ch 'X') [] (by decide) (Directive.chars_plain ..)
      | l =>
        have hne : ¬ (conversion = .x ∨ conversion = .u) := fun hxu => h ⟨rfl, rfl, hxu⟩
        have hx : conversion.char ≠ ch 'x' := by
          cases conversion <;> first | decide | exact absurd (Or.inl rfl) hne
        have hu : conversion.char ≠ ch 'u' := by
          cases conversion <;> first | decide | exact absurd (Or.inr rfl) hne
        rw [Directive.chars_plain]
        exact ⟨_, _, congrArg Prod.fst (kvprintf_long hx hu conversion.char_ne)⟩
      | z => exact hunknown (ch 'z') _ (by decide) (Directive.chars_plain ..)
    · obtain ⟨d, cs, hpos, hlt, heq⟩ := decimal_eq_cons hwidth
      refine hunknown (hexDigit d) (cs ++ modifier.chars ++ [conversion.char]) ?_ ?_
      · interval_cases d <;> decide
      · unfold Directive.chars
        dsimp only
        rw [heq]
        rfl

/-! ## Formats and their arguments -/

/-- The argument is a signed number below zero. -/
def Directive.Negative (v : Directive) (w : BitVec 64) : Prop :=
  (v.conversion = .d ∨ v.conversion = .i) ∧ (w.setWidth 32).toInt < 0

/-- **The characters stand for the argument**: they are the string or the
character, or the number is read back from them. -/
def Directive.Prints (a : Args) (v : Directive) (w : BitVec 64) (cs : List Character) : Prop :=
  match v.conversion with
  | .s => cs = if w = 0 then [] else a.string w
  | .d | .i => parseInt cs = some (if v.modifier = .none then (w.setWidth 32).toInt else w.toInt)
  | .u => parseNat 10 cs = some (if v.modifier = .none then w.toNat % 2 ^ 32 else w.toNat)
  | .x | .X => parseNat 16 cs = some (if v.modifier = .none then w.toNat % 2 ^ 32 else w.toNat)
  | .p => ∃ ds, cs = ch '0' :: ch 'x' :: ds ∧ parseNat 16 ds = some w.toNat
  | .c => cs = [w.setWidth 8]

theorem toNat_uintArg (w : BitVec 64) : (uintArg w).toNat = w.toNat % 2 ^ 32 := by
  unfold uintArg
  rw [BitVec.toNat_setWidth, BitVec.toNat_setWidth]
  omega

/-- A number below zero comes out as one near 2^64. -/
theorem parseInt_intArg (buf : Traced Character) (w : BitVec 64) :
    parseInt (printDec buf (intArg w)).1 = some (w.setWidth 32).toInt ↔
      ¬ (w.setWidth 32).toInt < 0 := by
  have hsign : (intArg w).toInt = (w.setWidth 32).toInt :=
    BitVec.toInt_signExtend_of_le (by decide)
  have hcond := BitVec.toInt_eq_toNat_cond (intArg w)
  have hlt := (intArg w).isLt
  rw [parseInt_eq (parseNat_printDec buf _), Option.some_inj, ← hsign, hcond]
  split_ifs <;> omega

theorem parseNat_uint (buf : Traced Character) (w : BitVec 64) :
    parseNat 10 (printDec buf (uintArg w)).1 = some (w.toNat % 2 ^ 32) := by
  rw [parseNat_printDec, toNat_uintArg]

theorem parseNat_hex (w : BitVec 64) :
    parseNat 16 (printHex (uintArg w) 8) = some (w.toNat % 2 ^ 32) ∧
      parseNat 16 (printHex w 16) = some w.toNat := by
  have hlt := w.isLt
  rw [parseNat_printHex _ (by decide), parseNat_printHex _ (by decide), toNat_uintArg]
  constructor
  · exact congrArg some (by omega)
  · exact congrArg some (by omega)

/-- **What a directive prints stands for its argument** unless that is
below zero. -/
theorem prints_rendered (h : v.Supported) (w : BitVec 64) :
    v.Prints a w (v.rendered a w) ↔ ¬ v.Negative w := by
  have hchar : (w.setWidth 32).setWidth 8 = w.setWidth 8 := by simp
  obtain ⟨zero, width, modifier, conversion⟩ := v
  obtain ⟨-, -, h⟩ := h
  unfold Directive.Prints Directive.rendered Directive.Negative
  cases modifier with
  | none =>
    cases conversion with
    | s => exact iff_of_true rfl (by simp)
    | d => simpa using parseInt_intArg a.stack w
    | i => simpa using parseInt_intArg a.stack w
    | u => exact iff_of_true (parseNat_uint a.stack w) (by simp)
    | x => exact iff_of_true (parseNat_hex w).1 (by simp)
    | X => exact absurd rfl h
    | p => exact iff_of_true ⟨_, rfl, (parseNat_hex w).2⟩ (by simp)
    | c => exact iff_of_true (congrArg (fun c => [c]) hchar) (by simp)
  | l =>
    rcases h with rfl | rfl
    · exact iff_of_true (parseNat_hex w).2 (by simp)
    · exact iff_of_true (parseNat_printDec a.stack w) (by simp)
  | z => exact h.elim

/-- **What is printed for a format**: its characters and, for each
directive, the next argument. `R` says what an argument is printed as. -/
def Matches (a : Args) (R : Directive → BitVec 64 → List Character → Prop) :
    List Piece → ℕ → List Printed → Prop
  | [], _, es => es = []
  | .text c _ _ :: ps, k, es => ∃ es', es = .text c :: es' ∧ Matches a R ps k es'
  | .percent :: ps, k, es => ∃ es', es = .text (ch '%') :: es' ∧ Matches a R ps k es'
  | .directive v :: ps, k, es =>
    ∃ cs es', es = .arg k cs :: es' ∧ R v (a.slot k) cs ∧ Matches a R ps (k + 1) es'

/-- **`kvprintf` stays in step with the arguments**: it takes as many as
there are directives, and prints each where its directive is. -/
def InStep (a : Args) (R : Directive → BitVec 64 → List Character → Prop) (ps : List Piece) : Prop :=
  (kvprintf a (format ps) 0).2 = (directives ps).length ∧
    Matches a R ps 0 (kvprintf a (format ps) 0).1

variable {ps : List Piece} {R : Directive → BitVec 64 → List Character → Prop}

theorem kvprintf_count (h : ∀ v ∈ directives ps, v.Supported) (k : ℕ) :
    (kvprintf a (format ps) k).2 = k + (directives ps).length := by
  induction ps generalizing k with
  | nil => rfl
  | cons p ps ih =>
    cases p with
    | text c hnul hpercent =>
      have hstep : kvprintf a (c :: format ps) k = _ := kvprintf_text hpercent
      exact (congrArg Prod.snd hstep).trans (ih h k)
    | percent =>
      have hstep : kvprintf a (ch '%' :: ch '%' :: format ps) k = _ := kvprintf_percent
      exact (congrArg Prod.snd hstep).trans (ih h k)
    | directive v =>
      obtain ⟨hv, hrest⟩ := List.forall_mem_cons.1 h
      have hstep : kvprintf a (v.chars ++ format ps) k = _ := kvprintf_supported hv
      rw [directives, List.length_cons]
      refine (congrArg Prod.snd hstep).trans ((ih hrest (k + 1)).trans ?_)
      omega

theorem matches_text {c : Character} {hnul : c ≠ 0} {hpercent : c ≠ ch '%'} :
    Matches a R (.text c hnul hpercent :: ps) k
        (kvprintf a (format (.text c hnul hpercent :: ps)) k).1 ↔
      Matches a R ps k (kvprintf a (format ps) k).1 := by
  have hstep : kvprintf a (c :: format ps) k = _ := kvprintf_text hpercent
  have hfst : (kvprintf a (format (.text c hnul hpercent :: ps)) k).1 = _ :=
    congrArg Prod.fst hstep
  rw [hfst]
  exact ⟨fun ⟨_, heq, h⟩ => (List.cons.inj heq).2 ▸ h, fun h => ⟨_, rfl, h⟩⟩

theorem matches_percent :
    Matches a R (.percent :: ps) k (kvprintf a (format (.percent :: ps)) k).1 ↔
      Matches a R ps k (kvprintf a (format ps) k).1 := by
  have hstep : kvprintf a (ch '%' :: ch '%' :: format ps) k = _ := kvprintf_percent
  have hfst : (kvprintf a (format (.percent :: ps)) k).1 = _ := congrArg Prod.fst hstep
  rw [hfst]
  exact ⟨fun ⟨_, heq, h⟩ => (List.cons.inj heq).2 ▸ h, fun h => ⟨_, rfl, h⟩⟩

/-- **One directive**: it has to be one that `kvprintf` knows. -/
theorem matches_directive :
    Matches a R (.directive v :: ps) k (kvprintf a (format (.directive v :: ps)) k).1 ↔
      v.Supported ∧ R v (a.slot k) (v.rendered a (a.slot k)) ∧
        Matches a R ps (k + 1) (kvprintf a (format ps) (k + 1)).1 := by
  by_cases hv : v.Supported
  · have hstep : kvprintf a (v.chars ++ format ps) k = _ := kvprintf_supported hv
    have hfst : (kvprintf a (format (.directive v :: ps)) k).1 = _ := congrArg Prod.fst hstep
    rw [hfst]
    constructor
    · rintro ⟨cs, es', heq, hR, h⟩
      obtain ⟨hhead, htail⟩ := List.cons.inj heq
      obtain ⟨-, rfl⟩ := Printed.arg.inj hhead
      exact ⟨hv, hR, htail ▸ h⟩
    · exact fun ⟨_, hR, h⟩ => ⟨_, _, rfl, hR, h⟩
  · -- a character is printed where the argument should be
    obtain ⟨c, es, hstep⟩ := @kvprintf_unsupported a v (format ps) k hv
    have hfst : (kvprintf a (format (.directive v :: ps)) k).1 = .text c :: es := hstep
    rw [hfst]
    refine iff_of_false ?_ fun h => hv h.1
    rintro ⟨cs, es', heq, -⟩
    cases heq

/-- **Step by step**: what is printed is as it should be exactly if every
directive is one that `kvprintf` knows and prints as it should. -/
theorem matches_iff (k : ℕ) :
    Matches a R ps k (kvprintf a (format ps) k).1 ↔
      (∀ v ∈ directives ps, v.Supported) ∧
        ∀ j v, (directives ps)[j]? = some v →
          R v (a.slot (k + j)) (v.rendered a (a.slot (k + j))) := by
  induction ps generalizing k with
  | nil => simp [Matches, format, directives, kvprintf]
  | cons p ps ih =>
    cases p with
    | text c hnul hpercent => exact matches_text.trans (ih k)
    | percent => exact matches_percent.trans (ih k)
    | directive v =>
      rw [matches_directive, ih (k + 1), directives, List.forall_mem_cons]
      constructor
      · rintro ⟨hv, hR, hrest, hall⟩
        refine ⟨⟨hv, hrest⟩, fun j u hj => ?_⟩
        cases j with
        | zero =>
          obtain rfl := Option.some.inj hj
          exact hR
        | succ j =>
          have hu := hall j u hj
          rwa [Nat.add_assoc, Nat.add_comm 1] at hu
      · rintro ⟨⟨hv, hrest⟩, hall⟩
        refine ⟨hv, hall 0 v rfl, hrest, fun j u hj => ?_⟩
        rw [Nat.add_assoc, Nat.add_comm 1]
        exact hall (j + 1) u hj

/-- **`kvprintf` stays in step with its arguments exactly if** it knows
every directive of the format; and what it prints stands for them exactly
if none of them is a signed number below zero, too. -/
theorem kvprintf_inStep_iff (a : Args) (ps : List Piece) :
    (InStep a (fun _ _ _ => True) ps ↔ ∀ v ∈ directives ps, v.Supported) ∧
      (InStep a (Directive.Prints a) ps ↔ (∀ v ∈ directives ps, v.Supported) ∧
        ∀ (j : ℕ) (v : Directive), (directives ps)[j]? = some v → ¬ v.Negative (a.slot j)) := by
  have hcount : (∀ v ∈ directives ps, v.Supported) →
      (kvprintf a (format ps) 0).2 = (directives ps).length :=
    fun h => (kvprintf_count h 0).trans (Nat.zero_add _)
  unfold InStep
  rw [matches_iff, matches_iff]
  constructor
  · exact ⟨fun h => h.2.1, fun h => ⟨hcount h, h, fun _ _ _ => trivial⟩⟩
  · constructor
    · rintro ⟨-, h, hall⟩
      refine ⟨h, fun j v hj => ?_⟩
      have hv := hall j v hj
      rw [Nat.zero_add] at hv
      exact (prints_rendered (h v (List.mem_of_getElem? hj)) _).1 hv
    · rintro ⟨h, hall⟩
      refine ⟨hcount h, h, fun j v hj => ?_⟩
      rw [Nat.zero_add]
      exact (prints_rendered (h v (List.mem_of_getElem? hj)) _).2 (hall j v hj)

/-- The format `%02x:%u`. -/
def busSlot : List Piece :=
  [.directive ⟨true, 2, .none, .x⟩, .text (ch ':') (by decide) (by decide),
    .directive ⟨false, 0, .none, .u⟩]

/-- The arguments 7, 8, and so on. -/
def countingArgs : Args := ⟨fun k => BitVec.ofNat 64 (7 + k), fun _ => [], ⟨fun _ => 0, []⟩⟩

/-- **With a width, the directive is printed**, and the next takes its
argument. -/
theorem kvprintf_busSlot :
    kvprintf countingArgs (format busSlot) 0 =
        ([.text (ch '%'), .text (ch '0'), .text (ch '2'), .text (ch 'x'), .text (ch ':'),
          .arg 0 [ch '7']], 1) ∧
      ¬ InStep countingArgs (fun _ _ _ => True) busSlot := by
  constructor
  · decide
  · intro h
    have hsupported := (matches_directive.1 h.2).1
    exact absurd hsupported.1 (by decide)

end Console

end Kos
