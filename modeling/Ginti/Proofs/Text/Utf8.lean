import Mathlib.Logic.Basic
import Mathlib.Tactic.SplitIfs
import Ginti.Text.Utf8

namespace Ginti.Text.Utf8

/-- The bytes of a text, one sequence for each character. -/
def encode (text : List Char) : List UInt8 :=
  text.flatMap String.utf8EncodeChar

theorem encode_cons (c : Char) (text : List Char) :
    encode (c :: text) = String.utf8EncodeChar c ++ encode text :=
  List.flatMap_cons

theorem data_toUTF8 (text : String) : text.toUTF8.data.toList = encode text.toList := by
  conv => lhs; rw [← String.ofList_toList (s := text)]
  rw [String.toUTF8_eq_toByteArray, String.toByteArray_ofList]
  exact List.toList_data_toByteArray

/-- The continuation bytes that complete a sequence, and the code point that it then stands for. -/
inductive Pending.Completes : Pending → List UInt8 → Nat → Prop where
  | done {p : Pending} (h : p.owed = 0) : p.Completes [] p.value
  | more {p q : Pending} {b : UInt8} {bytes : List UInt8} {n : Nat} (howed : p.owed ≠ 0)
      (hnext : p.extend b = some q) (hrest : q.Completes bytes n) : p.Completes (b :: bytes) n

/-- The bytes of one code point. -/
def IsSequence (bytes : List UInt8) (n : Nat) : Prop :=
  ∃ first rest p, bytes = first :: rest ∧ announce first = some p ∧ p.Completes rest n

/-- What is left of a code point without some of its lowest groups of six bits. -/
def shifted : Nat → Nat → Nat
  | 0, n => n
  | count + 1, n => shifted count n / 64

theorem shifted_eq (n : Nat) :
    shifted 1 n = n / 64 ∧ shifted 2 n = n / 4096 ∧ shifted 3 n = n / 262144 := by
  refine ⟨rfl, ?_, ?_⟩
  · rw [shifted, shifted, shifted, Nat.div_div_eq_div_mul]
  · rw [shifted, shifted, shifted, shifted, Nat.div_div_eq_div_mul, Nat.div_div_eq_div_mul]

/-- The continuation bytes of a code point: its lowest groups of six bits. -/
def continuation : Nat → Nat → List UInt8
  | 0, _ => []
  | count + 1, n => .ofNat (shifted count n % 64 + 0x80) :: continuation count n

/-- The sequence of a code point, by its size. -/
def sequenceOf (n : Nat) : List UInt8 :=
  if n ≤ 0x7f then [.ofNat n]
  else if n ≤ 0x7ff then .ofNat (shifted 1 n + 0xc0) :: continuation 1 n
  else if n ≤ 0xffff then .ofNat (shifted 2 n + 0xe0) :: continuation 2 n
  else .ofNat (shifted 3 n + 0xf0) :: continuation 3 n

theorem toNat_ofNat {n : Nat} (h : n < 256) : (UInt8.ofNat n).toNat = n :=
  UInt8.toNat_ofNat_of_lt' h

theorem eq_ofNat_of_toNat {b : UInt8} {n : Nat} (h : b.toNat = n) : b = UInt8.ofNat n := by
  rw [← h, UInt8.ofNat_toNat]

theorem completes_zero_iff {low high value n : Nat} {seen bytes : List UInt8} :
    Pending.Completes ⟨0, low, high, value, seen⟩ bytes n ↔ n = value ∧ bytes = [] := by
  constructor
  · intro h
    cases h with
    | done => exact ⟨rfl, rfl⟩
    | more howed => exact absurd rfl howed
  · rintro ⟨rfl, rfl⟩
    exact .done rfl

/-- A byte goes on with a sequence if it lies in the range that the sequence leaves for it. All
    later bytes have the full range. -/
theorem extend_eq_some_iff {p q : Pending} {b : UInt8} : p.extend b = some q ↔
    (p.low ≤ b.toNat ∧ b.toNat ≤ p.high) ∧
      q = ⟨p.owed - 1, 0x80, 0xbf, p.value * 64 + (b.toNat - 0x80), p.seen ++ [b]⟩ := by
  grind [Pending.extend]

/-- A sequence that owes a byte is completed by one in range and by what completes the rest. -/
theorem completes_succ_iff {owed low high value n : Nat} {seen bytes : List UInt8} :
    Pending.Completes ⟨owed + 1, low, high, value, seen⟩ bytes n ↔
      ∃ b rest, bytes = b :: rest ∧ (low ≤ b.toNat ∧ b.toNat ≤ high) ∧
        Pending.Completes ⟨owed, 0x80, 0xbf, value * 64 + (b.toNat - 0x80), seen ++ [b]⟩ rest
          n := by
  constructor
  · intro h
    cases h with
    | done howed => cases howed
    | @more _ q b rest _ _ hnext hrest =>
      obtain ⟨hbounds, rfl⟩ := extend_eq_some_iff.mp hnext
      exact ⟨b, rest, rfl, hbounds, hrest⟩
  · rintro ⟨b, rest, rfl, hbounds, hrest⟩
    exact .more (Nat.succ_ne_zero owed) (extend_eq_some_iff.mpr ⟨hbounds, rfl⟩) hrest

/-- What holds of the later continuation bytes holds with the next one as well, whose bounds are
    bounds of a group of bits. -/
theorem completes_step_iff {owed low high value n : Nat} {seen bytes : List UInt8}
    (hlow : 0x80 ≤ low) (hhigh : high ≤ 0xbf)
    (hlater : ∀ value seen rest, Pending.Completes ⟨owed, 0x80, 0xbf, value, seen⟩ rest n ↔
      shifted owed n = value ∧ rest = continuation owed n) :
    Pending.Completes ⟨owed + 1, low, high, value, seen⟩ bytes n ↔
      shifted owed n / 64 = value ∧
      (low ≤ shifted owed n % 64 + 0x80 ∧ shifted owed n % 64 + 0x80 ≤ high) ∧
      bytes = continuation (owed + 1) n := by
  rw [completes_succ_iff, continuation]
  generalize shifted owed n = m at hlater ⊢
  constructor
  · rintro ⟨b, rest, rfl, hbounds, hrest⟩
    obtain ⟨hvalue, rfl⟩ := (hlater _ _ _).mp hrest
    have hb : b.toNat = m % 64 + 0x80 := by omega
    refine ⟨by omega, by omega, ?_⟩
    rw [eq_ofNat_of_toNat hb]
  · rintro ⟨hvalue, hbounds, rfl⟩
    have hb : (UInt8.ofNat (m % 64 + 0x80)).toNat = m % 64 + 0x80 := toNat_ofNat (by omega)
    refine ⟨_, _, rfl, ?_, (hlater _ _ _).mpr ⟨?_, rfl⟩⟩
    · rwa [hb]
    · rw [hb]
      omega

/-- A sequence is completed by the continuation bytes of a code point that starts with the bits
    read so far. -/
theorem completes_iff {owed value n : Nat} {seen bytes : List UInt8} :
    Pending.Completes ⟨owed, 0x80, 0xbf, value, seen⟩ bytes n ↔
      shifted owed n = value ∧ bytes = continuation owed n := by
  induction owed generalizing value seen bytes with
  | zero => rw [completes_zero_iff, shifted, continuation]
  | succ owed ih =>
    rw [shifted, completes_step_iff (Nat.le_refl _) (Nat.le_refl _) fun _ _ _ => ih]
    have hbounds := Nat.mod_lt (shifted owed n) (show 0 < 64 by decide)
    simp only [and_congr_right_iff, and_iff_right_iff_imp]
    omega

/-- The classes of first bytes, by the number of continuation bytes that they announce. -/
theorem announce_eq_some_iff {b : UInt8} {p : Pending} : announce b = some p ↔
    b.toNat < 0x80 ∧ p = ⟨0, 0x80, 0xbf, b.toNat, [b]⟩ ∨
    (0xc2 ≤ b.toNat ∧ b.toNat < 0xe0) ∧ p = ⟨1, 0x80, 0xbf, b.toNat - 0xc0, [b]⟩ ∨
    (0xe0 ≤ b.toNat ∧ b.toNat < 0xf0) ∧ (∃ low high,
      (if b.toNat = 0xe0 then 0xa0 else 0x80) = low ∧
      (if b.toNat = 0xed then 0x9f else 0xbf) = high ∧
      p = ⟨2, low, high, b.toNat - 0xe0, [b]⟩) ∨
    (0xf0 ≤ b.toNat ∧ b.toNat < 0xf5) ∧ ∃ low high,
      (if b.toNat = 0xf0 then 0x90 else 0x80) = low ∧
      (if b.toNat = 0xf4 then 0x8f else 0xbf) = high ∧
      p = ⟨3, low, high, b.toNat - 0xf0, [b]⟩ := by
  grind [announce]

theorem isValidChar_iff {n : Nat} :
    n.isValidChar ↔ n < 0xd800 ∨ 0xdfff < n ∧ n < 0x110000 :=
  Iff.rfl

/-- A sequence is the one of its code point, which is a character: neither a surrogate nor past
    the last one. -/
theorem IsSequence.eq_sequenceOf {bytes : List UInt8} {n : Nat} (h : IsSequence bytes n) :
    n.isValidChar ∧ bytes = sequenceOf n := by
  have hbits := shifted_eq n
  rw [isValidChar_iff]
  obtain ⟨b, rest, p, rfl, hannounce, hcompletes⟩ := h
  obtain ⟨hb, rfl⟩ | ⟨hb, rfl⟩ | ⟨hb, low, high, hlow, hhigh, rfl⟩ |
    ⟨hb, low, high, hlow, hhigh, rfl⟩ := announce_eq_some_iff.mp hannounce
  · obtain ⟨rfl, rfl⟩ := completes_zero_iff.mp hcompletes
    refine ⟨by omega, ?_⟩
    rw [sequenceOf, if_pos (by omega), UInt8.ofNat_toNat]
  · obtain ⟨hvalue, rfl⟩ := completes_iff.mp hcompletes
    have hfirst : b = .ofNat (shifted 1 n + 0xc0) := eq_ofNat_of_toNat (by omega)
    refine ⟨by omega, ?_⟩
    rw [sequenceOf, if_neg (by omega), if_pos (by omega), ← hfirst]
  · rw [ite_eq_iff] at hlow hhigh
    obtain ⟨hvalue, hbounds, rfl⟩ :=
      (completes_step_iff (by omega) (by omega) fun _ _ _ => completes_iff).mp hcompletes
    have hfirst : b = .ofNat (shifted 2 n + 0xe0) := eq_ofNat_of_toNat (by omega)
    refine ⟨by omega, ?_⟩
    rw [sequenceOf, if_neg (by omega), if_neg (by omega), if_pos (by omega), ← hfirst]
  · rw [ite_eq_iff] at hlow hhigh
    obtain ⟨hvalue, hbounds, rfl⟩ :=
      (completes_step_iff (by omega) (by omega) fun _ _ _ => completes_iff).mp hcompletes
    have hfirst : b = .ofNat (shifted 3 n + 0xf0) := eq_ofNat_of_toNat (by omega)
    refine ⟨by omega, ?_⟩
    rw [sequenceOf, if_neg (by omega), if_neg (by omega), if_neg (by omega), ← hfirst]

theorem isSequence_sequenceOf {n : Nat} (hvalid : n.isValidChar) : IsSequence (sequenceOf n) n := by
  have hbits := shifted_eq n
  rw [isValidChar_iff] at hvalid
  rw [sequenceOf]
  split_ifs
  · have hb := toNat_ofNat (n := n) (by omega)
    refine ⟨_, _, _, rfl, announce_eq_some_iff.mpr (.inl ⟨by omega, rfl⟩), ?_⟩
    exact completes_zero_iff.mpr ⟨hb.symm, rfl⟩
  · have hb := toNat_ofNat (n := shifted 1 n + 0xc0) (by omega)
    refine ⟨_, _, _, rfl, announce_eq_some_iff.mpr (.inr (.inl ⟨by omega, rfl⟩)), ?_⟩
    exact completes_iff.mpr ⟨by omega, rfl⟩
  · have hb := toNat_ofNat (n := shifted 2 n + 0xe0) (by omega)
    refine ⟨_, _, _, rfl, announce_eq_some_iff.mpr
      (.inr (.inr (.inl ⟨by omega, _, _, rfl, rfl, rfl⟩))), ?_⟩
    rw [completes_step_iff (by split <;> omega) (by split <;> omega) fun _ _ _ => completes_iff]
    refine ⟨by omega, ?_, rfl⟩
    split_ifs <;> omega
  · have hb := toNat_ofNat (n := shifted 3 n + 0xf0) (by omega)
    refine ⟨_, _, _, rfl, announce_eq_some_iff.mpr
      (.inr (.inr (.inr ⟨by omega, _, _, rfl, rfl, rfl⟩))), ?_⟩
    rw [completes_step_iff (by split <;> omega) (by split <;> omega) fun _ _ _ => completes_iff]
    refine ⟨by omega, ?_, rfl⟩
    split_ifs <;> omega

/-- A character is encoded by the sequence of its code point. -/
theorem utf8EncodeChar_eq (c : Char) : String.utf8EncodeChar c = sequenceOf c.toNat := by
  obtain ⟨hone, htwo, hthree⟩ := shifted_eq c.toNat
  have hvalid := isValidChar_iff.mp c.valid
  rw [Char.toNat_val] at hvalid
  simp only [String.utf8EncodeChar, Char.toNat_val, sequenceOf, continuation, hone, htwo, hthree,
    shifted.eq_1]
  split_ifs
  · rfl
  · rw [show c.toNat / 64 % 32 = c.toNat / 64 by omega]
  · rw [show c.toNat / 4096 % 16 = c.toNat / 4096 by omega]
  · rw [show c.toNat / 262144 % 8 = c.toNat / 262144 by omega]

/-- The encoding of a character is a sequence of its code point. -/
theorem isSequence_utf8EncodeChar (c : Char) :
    IsSequence (String.utf8EncodeChar c) c.toNat := by
  rw [utf8EncodeChar_eq]
  exact isSequence_sequenceOf c.valid

/-- A code point has no other sequence than its encoding: the ranges of the first two bytes leave out
    the longer forms. -/
theorem IsSequence.eq_utf8EncodeChar {bytes : List UInt8} {n : Nat} (h : IsSequence bytes n) :
    bytes = String.utf8EncodeChar (Char.ofNat n) := by
  obtain ⟨hvalid, hbytes⟩ := h.eq_sequenceOf
  have hn : (Char.ofNat n).toNat = n := by
    rw [Char.ofNat, dif_pos hvalid]
    rfl
  rw [utf8EncodeChar_eq, hn, hbytes]

/-- What the next byte makes of a sequence, or of nothing. -/
def next : Option Pending → UInt8 → Option Pending
  | none, b => announce b
  | some p, b => p.extend b

section
variable {pending : Option Pending} {p : Pending} {b : UInt8} {offset : Nat}

/-- One byte of a run: it completes a sequence, goes on with one, or is answered with a defect. -/
theorem decodeFrom_cons (rest : List UInt8) : decodeFrom offset pending (b :: rest) =
    match next pending b, pending with
    | some p, _ =>
      if p.owed = 0 then (decodeFrom (offset + 1) none rest).map (Char.ofNat p.value :: ·)
      else decodeFrom (offset + 1) (some p) rest
    | none, none => .error ⟨.invalidStart, offset, [b]⟩
    | none, some p => .error ⟨.invalidContinuation, offset - p.seen.length, p.seen⟩ := by
  cases pending with
  | none =>
    rw [decodeFrom, next]
    cases announce b <;> rfl
  | some p =>
    rw [decodeFrom, next]
    cases p.extend b <;> rfl

/-- A byte that completes a sequence gives a character. -/
theorem decodeFrom_of_complete (hnext : next pending b = some p) (howed : p.owed = 0)
    (rest : List UInt8) : decodeFrom offset pending (b :: rest) =
      (decodeFrom (offset + 1) none rest).map (Char.ofNat p.value :: ·) := by
  rw [decodeFrom_cons, hnext]
  exact if_pos howed

/-- A byte that leaves a sequence open gives nothing yet. -/
theorem decodeFrom_of_open (hnext : next pending b = some p) (howed : p.owed ≠ 0)
    (rest : List UInt8) :
    decodeFrom offset pending (b :: rest) = decodeFrom (offset + 1) (some p) rest := by
  rw [decodeFrom_cons, hnext]
  exact if_neg howed

/-- Completing a sequence gives its character, and what follows is decoded on its own. -/
theorem decodeFrom_of_completes {bytes : List UInt8} {n : Nat} (hnext : next pending b = some p)
    (h : p.Completes bytes n) (rest : List UInt8) :
    ∃ after, decodeFrom offset pending (b :: bytes ++ rest) =
      (decodeFrom after none rest).map (Char.ofNat n :: ·) := by
  induction h generalizing pending b offset with
  | done howed => exact ⟨_, decodeFrom_of_complete hnext howed rest⟩
  | more howed hextend _ ih =>
    rw [List.cons_append, decodeFrom_of_open hnext howed]
    exact ih hextend

/-- Where decoding succeeds, the next byte completes a sequence or leaves one open. -/
theorem decodeFrom_cons_eq_ok {rest : List UInt8} {text : List Char}
    (h : decodeFrom offset pending (b :: rest) = .ok text) :
    (∃ p, next pending b = some p ∧ p.owed = 0 ∧ ∃ later, text = Char.ofNat p.value :: later ∧
      decodeFrom (offset + 1) none rest = .ok later) ∨
    ∃ p, next pending b = some p ∧ p.owed ≠ 0 ∧
      decodeFrom (offset + 1) (some p) rest = .ok text := by
  cases hnext : next pending b with
  | none =>
    rw [decodeFrom_cons, hnext] at h
    cases pending <;> cases h
  | some p =>
    by_cases howed : p.owed = 0
    · rw [decodeFrom_of_complete hnext howed] at h
      cases hrest : decodeFrom (offset + 1) none rest with
      | error e =>
        rw [hrest] at h
        cases h
      | ok later =>
        rw [hrest] at h
        cases h
        exact .inl ⟨p, rfl, howed, later, rfl, rfl⟩
    · rw [decodeFrom_of_open hnext howed] at h
      exact .inr ⟨p, rfl, howed, h⟩

/-- Where decoding succeeds it has completed a sequence and decoded what follows. -/
theorem exists_completes_of_decodeFrom {bytes : List UInt8} {text : List Char}
    (h : decodeFrom offset pending (b :: bytes) = .ok text) :
    ∃ p seq rest n later after, next pending b = some p ∧ bytes = seq ++ rest ∧
      p.Completes seq n ∧ text = Char.ofNat n :: later ∧
      decodeFrom after none rest = .ok later := by
  induction bytes generalizing pending b offset with
  | nil =>
    obtain ⟨p, hnext, howed, later, htext, hrest⟩ | ⟨p, -, -, hrest⟩ := decodeFrom_cons_eq_ok h
    · exact ⟨p, [], [], p.value, later, _, hnext, rfl, .done howed, htext, hrest⟩
    · cases hrest
  | cons c bytes ih =>
    obtain ⟨p, hnext, howed, later, htext, hrest⟩ | ⟨p, hnext, howed, hrest⟩ :=
      decodeFrom_cons_eq_ok h
    · exact ⟨p, [], _, p.value, later, _, hnext, rfl, .done howed, htext, hrest⟩
    · obtain ⟨q, seq, rest, n, later, after, hextend, hbytes, hcompletes, htext, hrest⟩ := ih hrest
      exact ⟨p, c :: seq, rest, n, later, after, hnext, congrArg (c :: ·) hbytes,
        .more howed hextend hcompletes, htext, hrest⟩

end

/-- From a position between sequences, bytes decode to a text exactly if they are its encoding. -/
theorem decodeFrom_eq_ok_iff {offset : Nat} {bytes : List UInt8} {text : List Char} :
    decodeFrom offset none bytes = .ok text ↔ bytes = encode text := by
  induction text generalizing offset bytes with
  | nil =>
    cases bytes with
    | nil => exact iff_of_true rfl rfl
    | cons b bytes =>
      refine iff_of_false (fun h => ?_) (List.cons_ne_nil b bytes)
      obtain ⟨_, _, _, _, _, _, -, -, -, htext, -⟩ := exists_completes_of_decodeFrom h
      cases htext
  | cons c text ih =>
    rw [encode_cons]
    constructor
    · intro h
      cases bytes with
      | nil => cases h
      | cons b bytes =>
        obtain ⟨p, seq, rest, n, later, after, hnext, rfl, hcompletes, htext, hrest⟩ :=
          exists_completes_of_decodeFrom h
        cases htext
        have hsequence : IsSequence (b :: seq) n := ⟨b, seq, p, rfl, hnext, hcompletes⟩
        rw [← hsequence.eq_utf8EncodeChar, ← ih.mp hrest, List.cons_append]
    · rintro rfl
      obtain ⟨b, seq, p, hbytes, hannounce, hcompletes⟩ := isSequence_utf8EncodeChar c
      have hnext : next none b = some p := hannounce
      obtain ⟨after, hdecode⟩ : ∃ after, decodeFrom offset none (b :: seq ++ encode text) = _ :=
        decodeFrom_of_completes hnext hcompletes (encode text)
      rw [hbytes, hdecode, ih.mpr rfl, Char.ofNat_toNat]
      rfl

/-- Decoding succeeds on the encodings of texts alone, and gives the text back. -/
theorem decode_eq_ok_iff {bytes : List UInt8} {text : List Char} :
    decode bytes = .ok text ↔ bytes = encode text :=
  decodeFrom_eq_ok_iff

end Ginti.Text.Utf8
