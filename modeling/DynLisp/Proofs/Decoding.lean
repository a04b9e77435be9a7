import DynLisp.Proofs.Lexing
import DynLisp.Text.Utf8
import Mathlib.Data.List.Basic

/-!
# Decoding takes back encoding

The bytes that decode are those that encode some text, and they decode to that text:
`Utf8.decode_eq_ok_iff`.  So whatever does not decode is no text.

Encoding writes the bytes of each character from its number.  Decoding goes the other way: a lead
byte says how many continuation bytes it wants, and the bits of all of them make the number.  The
two meet in `Leads`, which is what the bytes of one character are like.
-/

namespace DynLisp.Utf8

/-! ## The bytes of one character -/

theorem isContinuation_iff {b : UInt8} :
    isContinuation b = true ↔ 0x80 ≤ b.toNat ∧ b.toNat < 0xC0 := by
  rw [isContinuation, Bool.and_eq_true, decide_eq_true_eq, decide_eq_true_eq,
    UInt8.le_iff_toNat_le, UInt8.lt_iff_toNat_lt]
  rfl

theorem fitsSecond_iff {lead b : UInt8} :
    fitsSecond lead b = true ↔
      (lead.toNat = 0xE0 → 0xA0 ≤ b.toNat) ∧ (lead.toNat = 0xED → b.toNat < 0xA0) ∧
        (lead.toNat = 0xF0 → 0x90 ≤ b.toNat) ∧ (lead.toNat = 0xF4 → b.toNat < 0x90) := by
  have heq : ∀ n : UInt8, lead = n ↔ lead.toNat = n.toNat := fun n => UInt8.toNat_inj.symm
  have hle : ∀ n : UInt8, n ≤ b ↔ n.toNat ≤ b.toNat := fun n => UInt8.le_iff_toNat_le
  have hlt : ∀ n : UInt8, b < n ↔ b.toNat < n.toNat := fun n => UInt8.lt_iff_toNat_lt
  have hE0 : (0xE0 : UInt8).toNat = 0xE0 := rfl
  have hED : (0xED : UInt8).toNat = 0xED := rfl
  have hF0 : (0xF0 : UInt8).toNat = 0xF0 := rfl
  have hF4 : (0xF4 : UInt8).toNat = 0xF4 := rfl
  have hA0 : (0xA0 : UInt8).toNat = 0xA0 := rfl
  have h90 : (0x90 : UInt8).toNat = 0x90 := rfl
  unfold fitsSecond
  simp only [heq, hE0, hED, hF0, hF4]
  split_ifs <;> simp only [decide_eq_true_eq, eq_self, true_iff, hle, hlt, hA0, h90] <;> omega

theorem lead?_eq_some_iff {b : UInt8} {wanted bits : Nat} :
    lead? b = some (wanted, bits) ↔
      (b.toNat < 0x80 ∧ wanted = 0 ∧ bits = b.toNat) ∨
        (0xC2 ≤ b.toNat ∧ b.toNat < 0xE0 ∧ wanted = 1 ∧ bits = b.toNat - 0xC0) ∨
        (0xE0 ≤ b.toNat ∧ b.toNat < 0xF0 ∧ wanted = 2 ∧ bits = b.toNat - 0xE0) ∨
        (0xF0 ≤ b.toNat ∧ b.toNat < 0xF5 ∧ wanted = 3 ∧ bits = b.toNat - 0xF0) := by
  unfold lead?
  simp only
  split_ifs <;> simp only [Option.some.injEq, Prod.mk.injEq, false_iff] <;> omega

/-- The number that the bits of a lead byte and the bytes after it make. -/
def number (bits : Nat) (more : List UInt8) : Nat :=
  more.foldl (fun n c => n * 64 + (c.toNat - 0x80)) bits

/-- A lead byte with these bits and the bytes after it form a character. -/
structure Leads (b : UInt8) (more : List UInt8) (bits : Nat) : Prop where
  lead : lead? b = some (more.length, bits)
  continued : ∀ c ∈ more, isContinuation c = true
  fits : ∀ c ∈ more.head?, fitsSecond b c = true

variable {b : UInt8} {more : List UInt8} {bits : Nat}

theorem encodeChar_eq (c : Char) :
    String.utf8EncodeChar c =
      if c.toNat ≤ 0x7F then [UInt8.ofNat c.toNat]
      else if c.toNat ≤ 0x7FF then
        [UInt8.ofNat (c.toNat / 64 % 32 + 0xC0), UInt8.ofNat (c.toNat % 64 + 0x80)]
      else if c.toNat ≤ 0xFFFF then
        [UInt8.ofNat (c.toNat / 4096 % 16 + 0xE0), UInt8.ofNat (c.toNat / 64 % 64 + 0x80),
          UInt8.ofNat (c.toNat % 64 + 0x80)]
      else
        [UInt8.ofNat (c.toNat / 262144 % 8 + 0xF0), UInt8.ofNat (c.toNat / 4096 % 64 + 0x80),
          UInt8.ofNat (c.toNat / 64 % 64 + 0x80), UInt8.ofNat (c.toNat % 64 + 0x80)] := rfl

theorem ofNat_eq_of_eq {n : Nat} (h : n = b.toNat) : UInt8.ofNat n = b := by
  rw [h, UInt8.ofNat_toNat]

theorem toNat_ofNat_of_valid {n : Nat} (h : n < 0xD800 ∨ (0xDFFF < n ∧ n < 0x110000)) :
    (Char.ofNat n).toNat = n := by
  rw [Char.ofNat, dif_pos h]
  rfl

/-- The bytes that form a character are those that its encoding writes. -/
theorem Leads.encodeChar (h : Leads b more bits) :
    String.utf8EncodeChar (Char.ofNat (number bits more)) = b :: more := by
  obtain ⟨hlead, hcontinued, hfits⟩ := h
  generalize hn : number bits more = n
  rcases lead?_eq_some_iff.1 hlead with ⟨hb, hlength, hbits⟩ | ⟨hb, hb', hlength, hbits⟩ |
    ⟨hb, hb', hlength, hbits⟩ | ⟨hb, hb', hlength, hbits⟩
  · obtain rfl := List.length_eq_zero_iff.1 hlength
    have hn : bits = n := hn
    have hchar : (Char.ofNat n).toNat = n := toNat_ofNat_of_valid (by omega)
    rw [encodeChar_eq, hchar, if_pos (by omega), ofNat_eq_of_eq (b := b) (by omega)]
  · obtain ⟨c, rfl⟩ := List.length_eq_one_iff.1 hlength
    have hc := isContinuation_iff.1 (hcontinued c List.mem_cons_self)
    have hn : bits * 64 + (c.toNat - 0x80) = n := hn
    have hchar : (Char.ofNat n).toNat = n := toNat_ofNat_of_valid (by omega)
    rw [encodeChar_eq, hchar, if_neg (by omega), if_pos (by omega)]
    rw [ofNat_eq_of_eq (b := b) (by omega), ofNat_eq_of_eq (b := c) (by omega)]
  · obtain ⟨c, d, rfl⟩ := List.length_eq_two.1 hlength
    have hc := isContinuation_iff.1 (hcontinued c (by simp))
    have hd := isContinuation_iff.1 (hcontinued d (by simp))
    have hsecond := fitsSecond_iff.1 (hfits c rfl)
    have hn : (bits * 64 + (c.toNat - 0x80)) * 64 + (d.toNat - 0x80) = n := hn
    have hchar : (Char.ofNat n).toNat = n := toNat_ofNat_of_valid (by omega)
    rw [encodeChar_eq, hchar, if_neg (by omega), if_neg (by omega), if_pos (by omega)]
    -- the bounds on the second byte have told how many bytes there are, and serve no further
    clear hsecond
    rw [ofNat_eq_of_eq (b := b) (by omega), ofNat_eq_of_eq (b := c) (by omega),
      ofNat_eq_of_eq (b := d) (by omega)]
  · obtain ⟨c, d, e, rfl⟩ := List.length_eq_three.1 hlength
    have hc := isContinuation_iff.1 (hcontinued c (by simp))
    have hd := isContinuation_iff.1 (hcontinued d (by simp))
    have he := isContinuation_iff.1 (hcontinued e (by simp))
    have hsecond := fitsSecond_iff.1 (hfits c rfl)
    have hn : ((bits * 64 + (c.toNat - 0x80)) * 64 + (d.toNat - 0x80)) * 64 +
        (e.toNat - 0x80) = n := hn
    have hchar : (Char.ofNat n).toNat = n := toNat_ofNat_of_valid (by omega)
    rw [encodeChar_eq, hchar, if_neg (by omega), if_neg (by omega), if_neg (by omega)]
    clear hsecond
    rw [ofNat_eq_of_eq (b := b) (by omega), ofNat_eq_of_eq (b := c) (by omega),
      ofNat_eq_of_eq (b := d) (by omega), ofNat_eq_of_eq (b := e) (by omega)]

theorem isContinuation_ofNat {n : Nat} (h : 0x80 ≤ n) (h' : n < 0xC0) :
    isContinuation (UInt8.ofNat n) = true := by
  rw [isContinuation_iff, UInt8.toNat_ofNat']
  omega

/-- The bytes that the encoding of a character writes form it. -/
theorem exists_leads (c : Char) :
    ∃ b more bits, String.utf8EncodeChar c = b :: more ∧ Leads b more bits ∧
      Char.ofNat (number bits more) = c := by
  have hvalid : c.toNat < 0xD800 ∨ (0xDFFF < c.toNat ∧ c.toNat < 0x110000) := c.valid
  have hchar : ∀ n, n = c.toNat → Char.ofNat n = c := fun n hn => by rw [hn, Char.ofNat_toNat]
  rw [encodeChar_eq]
  split_ifs with h1 h2 h3
  · refine ⟨_, [], c.toNat, rfl, ⟨?_, List.forall_mem_nil _, ?_⟩, hchar _ rfl⟩
    · rw [lead?_eq_some_iff, UInt8.toNat_ofNat']
      exact .inl ⟨by omega, rfl, by omega⟩
    · rintro d ⟨⟩
  · refine ⟨_, _, c.toNat / 64 % 32, rfl, ⟨?_, ?_, ?_⟩, hchar _ ?_⟩
    · rw [lead?_eq_some_iff, UInt8.toNat_ofNat']
      exact .inr (.inl ⟨by omega, by omega, rfl, by omega⟩)
    · rw [List.forall_mem_singleton]
      exact isContinuation_ofNat (by omega) (by omega)
    · rintro d ⟨⟩
      rw [fitsSecond_iff, UInt8.toNat_ofNat', UInt8.toNat_ofNat']
      omega
    · show _ * 64 + ((UInt8.ofNat _).toNat - 0x80) = _
      rw [UInt8.toNat_ofNat']
      omega
  · refine ⟨_, _, c.toNat / 4096 % 16, rfl, ⟨?_, ?_, ?_⟩, hchar _ ?_⟩
    · rw [lead?_eq_some_iff, UInt8.toNat_ofNat']
      exact .inr (.inr (.inl ⟨by omega, by omega, rfl, by omega⟩))
    · rw [List.forall_mem_cons, List.forall_mem_singleton]
      exact ⟨isContinuation_ofNat (by omega) (by omega),
        isContinuation_ofNat (by omega) (by omega)⟩
    · rintro d ⟨⟩
      rw [fitsSecond_iff, UInt8.toNat_ofNat', UInt8.toNat_ofNat']
      omega
    · show (_ * 64 + ((UInt8.ofNat _).toNat - 0x80)) * 64 + ((UInt8.ofNat _).toNat - 0x80) = _
      rw [UInt8.toNat_ofNat', UInt8.toNat_ofNat']
      omega
  · refine ⟨_, _, c.toNat / 262144 % 8, rfl, ⟨?_, ?_, ?_⟩, hchar _ ?_⟩
    · rw [lead?_eq_some_iff, UInt8.toNat_ofNat']
      exact .inr (.inr (.inr ⟨by omega, by omega, rfl, by omega⟩))
    · rw [List.forall_mem_cons, List.forall_mem_cons, List.forall_mem_singleton]
      exact ⟨isContinuation_ofNat (by omega) (by omega),
        isContinuation_ofNat (by omega) (by omega), isContinuation_ofNat (by omega) (by omega)⟩
    · rintro d ⟨⟩
      rw [fitsSecond_iff, UInt8.toNat_ofNat', UInt8.toNat_ofNat']
      omega
    · show ((_ * 64 + ((UInt8.ofNat _).toNat - 0x80)) * 64 + ((UInt8.ofNat _).toNat - 0x80)) * 64 +
        ((UInt8.ofNat _).toNat - 0x80) = _
      rw [UInt8.toNat_ofNat', UInt8.toNat_ofNat', UInt8.toNat_ofNat']
      omega

/-! ## The continuation bytes at the front -/

theorem continuation_append {lead : UInt8} {taken : Nat} {rest : List UInt8} (htaken : 1 ≤ taken)
    (hcontinued : ∀ c ∈ more, isContinuation c = true)
    (hfits : taken = 1 → ∀ c ∈ more.head?, fitsSecond lead c = true) :
    continuation lead taken more.length (more ++ rest) = more := by
  induction more generalizing taken with
  | nil =>
    rw [List.length_nil, continuation]
    rintro _ _ _ ⟨⟩
  | cons c more ih =>
    rw [List.forall_mem_cons] at hcontinued
    have hc : (isContinuation c && (taken != 1 || fitsSecond lead c)) = true := by
      by_cases h : taken = 1
      · rw [hcontinued.1, hfits h c rfl, Bool.or_true, Bool.and_true]
      · rw [hcontinued.1, bne_iff_ne.2 h]
        rfl
    rw [List.length_cons, List.cons_append, continuation, if_pos hc,
      ih (by omega) hcontinued.2 fun h => absurd h (by omega)]

theorem continuation_spec (lead : UInt8) (taken wanted : Nat) (bytes : List UInt8) :
    (∀ c ∈ continuation lead taken wanted bytes, isContinuation c = true) ∧
      (taken = 1 → ∀ c ∈ (continuation lead taken wanted bytes).head?,
        fitsSecond lead c = true) ∧
      continuation lead taken wanted bytes <+: bytes := by
  fun_induction continuation lead taken wanted bytes with
  | case1 taken wanted c bytes hc ih =>
    rw [Bool.and_eq_true, Bool.or_eq_true, bne_iff_ne] at hc
    refine ⟨List.forall_mem_cons.2 ⟨hc.1, ih.1⟩, ?_, List.cons_prefix_cons.2 ⟨rfl, ih.2.2⟩⟩
    rintro htaken d ⟨⟩
    exact hc.2.resolve_left fun h => h htaken
  | case2 => exact ⟨List.forall_mem_nil _, fun _ _ h => absurd h (by simp), List.nil_prefix⟩
  | case3 => exact ⟨List.forall_mem_nil _, fun _ _ h => absurd h (by simp), List.nil_prefix⟩

/-! ## Texts -/

theorem decodeFrom_cons_of_leads (h : Leads b more bits) (start : Nat) (rest : List UInt8) :
    decodeFrom start (b :: (more ++ rest)) =
      (decodeFrom (start + 1 + more.length) rest).map (Char.ofNat (number bits more) :: ·) := by
  have hmore : continuation b 1 more.length (more ++ rest) = more :=
    continuation_append (Nat.le_refl 1) h.continued fun _ => h.fits
  rw [decodeFrom, h.lead]
  simp only [hmore, List.drop_left, if_pos]
  rfl

/-- Characters come back from their bytes. -/
theorem decodeFrom_flatMap (start : Nat) (cs : List Char) :
    decodeFrom start (cs.flatMap String.utf8EncodeChar) = .ok cs := by
  induction cs generalizing start with
  | nil => rw [List.flatMap_nil, decodeFrom]
  | cons c cs ih =>
    obtain ⟨b, more, bits, hbytes, hleads, hchar⟩ := exists_leads c
    rw [List.flatMap_cons, hbytes, List.cons_append, decodeFrom_cons_of_leads hleads, ih, hchar]
    rfl

/-- Bytes that decode are those of the characters that they decode to. -/
theorem eq_flatMap_of_decodeFrom {start : Nat} {bytes : List UInt8} {cs : List Char}
    (h : decodeFrom start bytes = .ok cs) : bytes = cs.flatMap String.utf8EncodeChar := by
  fun_induction decodeFrom start bytes generalizing cs with
  | case1 start =>
    obtain rfl := Except.ok.inj h
    rfl
  | case2 => cases h
  | case3 start b bytes wanted bits hlead more hlength code =>
    rename_i ih
    obtain ⟨rest, hrest, rfl⟩ := Except.map_eq_ok_iff.1 h
    obtain ⟨hcontinued, hfits, hprefix⟩ := continuation_spec b 1 wanted bytes
    have hleads : Leads b more bits := ⟨hlength ▸ hlead, hcontinued, hfits rfl⟩
    have hsplit : bytes = more ++ bytes.drop wanted := by
      rw [← hlength]
      exact (List.prefix_iff_eq_append.1 hprefix).symm
    have hchar : String.utf8EncodeChar (Char.ofNat code) = b :: more := hleads.encodeChar
    rw [List.flatMap_cons, hchar, ← ih hrest, List.cons_append, ← hsplit]
  | case4 => cases h
  | case5 => cases h

theorem toUTF8_ofList (cs : List Char) :
    (String.ofList cs).toUTF8.data.toList = cs.flatMap String.utf8EncodeChar :=
  congrArg Array.toList List.data_toByteArray

/-- **Bytes decode to a text if and only if they are its encoding.** -/
theorem decode_eq_ok_iff {bytes : List UInt8} {text : String} :
    decode bytes = .ok text ↔ text.toUTF8.data.toList = bytes := by
  constructor
  · intro h
    obtain ⟨cs, hcs, rfl⟩ := Except.map_eq_ok_iff.1 h
    rw [toUTF8_ofList]
    exact (eq_flatMap_of_decodeFrom hcs).symm
  · rintro rfl
    obtain ⟨cs, rfl⟩ : ∃ cs, text = String.ofList cs := ⟨_, String.ofList_toList.symm⟩
    rw [toUTF8_ofList, decode, decodeFrom_flatMap]
    rfl

end DynLisp.Utf8
