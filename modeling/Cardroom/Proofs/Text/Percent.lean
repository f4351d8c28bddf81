import Cardroom.Proofs.Text.Base64Url
import Cardroom.Text.Percent
import Mathlib.Logic.Basic

namespace Cardroom.Text.Percent

variable {separator b : UInt8} {part rest : List UInt8} {parts : List (List UInt8)}

theorem splitAll_of_not_mem (h : separator ∉ part) : splitAll separator part = [part] := by
  induction part with
  | nil => rfl
  | cons b part ih =>
    obtain ⟨hb, hpart⟩ := not_or.1 (List.mem_cons.not.1 h)
    rw [splitAll, if_neg (Ne.symm hb), ih hpart]

theorem splitAll_append (h : separator ∉ part) (rest : List UInt8) :
    splitAll separator (part ++ separator :: rest) = part :: splitAll separator rest := by
  induction part with
  | nil => exact if_pos rfl
  | cons b part ih =>
    obtain ⟨hb, hpart⟩ := not_or.1 (List.mem_cons.not.1 h)
    rw [List.cons_append, splitAll, if_neg (Ne.symm hb), ih hpart]

theorem splitAll_intercalate (hne : parts ≠ []) (h : ∀ part ∈ parts, separator ∉ part) :
    splitAll separator ([separator].intercalate parts) = parts := by
  induction parts with
  | nil => exact absurd rfl hne
  | cons part parts ih =>
    have hpart := h part List.mem_cons_self
    cases parts with
    | nil => rw [List.intercalate_singleton, splitAll_of_not_mem hpart]
    | cons next parts =>
      rw [List.intercalate_cons_cons, List.append_assoc, List.singleton_append,
        splitAll_append hpart,
        ih (List.cons_ne_nil next parts) fun p hp => h p (List.mem_cons_of_mem part hp)]

theorem splitFirst_append (h : separator ∉ part) (rest : List UInt8) :
    splitFirst separator (part ++ separator :: rest) = (part, rest) := by
  have hall : ∀ b ∈ part, (b != separator) = true := fun b hb =>
    bne_iff_ne.2 fun e => h (e ▸ hb)
  rw [splitFirst, List.takeWhile_append_of_pos hall, List.dropWhile_append_of_pos hall]
  simp

def pairOf (part : List UInt8) : String × String :=
  (formText (splitFirst 0x3D part).1, formText (splitFirst 0x3D part).2)

structure IsOther (name : String) (part : List UInt8) : Prop where
  whole : 0x26 ∉ part
  other : (pairOf part).1 ≠ name

theorem filter_pairs {name : String} {before after : List (List UInt8)} {bytes value : List UInt8}
    (hbefore : ∀ part ∈ before, IsOther name part) (hafter : ∀ part ∈ after, IsOther name part)
    (hname : formText bytes = name) (hbytes : 0x26 ∉ bytes ∧ 0x3D ∉ bytes) (hvalue : 0x26 ∉ value) :
    (pairs ([0x26].intercalate (before ++ (bytes ++ 0x3D :: value) :: after))).filter (·.1 = name) =
      [(name, formText value)] := by
  have hothers : ∀ ps : List (List UInt8), (∀ part ∈ ps, IsOther name part) →
      ((ps.filter (!·.isEmpty)).map pairOf).filter (·.1 = name) = [] := by
    intro ps hps
    rw [List.filter_eq_nil_iff]
    intro pair hpair
    obtain ⟨part, hpart, rfl⟩ := List.mem_map.1 hpair
    rw [decide_eq_true_eq]
    exact (hps part (List.mem_filter.1 hpart).1).other
  have hwhole : ∀ part ∈ before ++ (bytes ++ 0x3D :: value) :: after, 0x26 ∉ part := by
    intro part hpart
    rcases List.mem_append.1 hpart with hpart | hpart
    · exact (hbefore part hpart).whole
    rcases List.mem_cons.1 hpart with rfl | hpart
    · simp [hbytes.1, hvalue]
    · exact (hafter part hpart).whole
  have hpair : pairOf (bytes ++ 0x3D :: value) = (name, formText value) := by
    rw [pairOf, splitFirst_append hbytes.2, hname]
  have hsplit := splitAll_intercalate (by simp) hwhole
  change (((splitAll 0x26 _).filter (!·.isEmpty)).map pairOf).filter (·.1 = name) = _
  rw [hsplit, List.filter_append, List.map_append, List.filter_append, hothers before hbefore,
    List.filter_cons_of_pos (by simp), List.map_cons, hpair, List.filter_cons_of_pos (by simp),
    hothers after hafter, List.nil_append]

def isTokenChar (c : Char) : Bool := (Base64Url.value? c).isSome || c = '.'

theorem lt_of_isTokenChar {c : Char} (h : isTokenChar c = true) : c.toNat < 128 := by
  simp only [isTokenChar, Bool.or_eq_true, decide_eq_true_eq] at h
  rcases h with h | rfl
  · obtain ⟨v, hv⟩ := Option.isSome_iff_exists.1 h
    exact Base64Url.lt_of_value? hv
  · decide

theorem of_isTokenChar {P : Char → Bool}
    (hall : ∀ n : Fin 128, isTokenChar (Char.ofNat n.val) = true → P (Char.ofNat n.val) = true)
    {c : Char} (h : isTokenChar c = true) : P c = true := by
  have hc := hall ⟨c.toNat, lt_of_isTokenChar h⟩
  rw [Char.ofNat_toNat] at hc
  exact hc h

def isQuiet (b : UInt8) : Bool := b != 0x2B && b != 0x26 && b != 0x3D

theorem isQuiet_of_hexValue? {b v : UInt8} (h : hexValue? b = some v) : isQuiet b = true := by
  have hrange : 0x30 ≤ b ∧ b ≤ 0x39 ∨ 0x41 ≤ b ∧ b ≤ 0x46 ∨ 0x61 ≤ b ∧ b ≤ 0x66 := by
    unfold hexValue? at h
    split at h
    · exact .inl ‹_›
    split at h
    · exact .inr (.inl ‹_›)
    split at h
    · exact .inr (.inr ‹_›)
    · cases h
  simp only [isQuiet, Bool.and_eq_true, bne_iff_ne]
  refine ⟨⟨?_, ?_⟩, ?_⟩ <;> rintro rfl <;> exact absurd hrange (by decide)

/-- The text with any of its characters spelled with a percent sign. -/
inductive Spells : List Char → List UInt8 → Prop where
  | nil : Spells [] []
  | plain {c : Char} {cs : List Char} {bytes : List UInt8} (h : Spells cs bytes) :
    Spells (c :: cs) (c.toNat.toUInt8 :: bytes)
  | percent {c : Char} {cs : List Char} {bytes : List UInt8} {high low : UInt8}
    (hc : hexByte? high low = some c.toNat.toUInt8) (h : Spells cs bytes) :
    Spells (c :: cs) (0x25 :: high :: low :: bytes)

theorem hexValue?_of_hexByte? {high low : UInt8} (h : hexByte? high low = some b) :
    ∃ v w, hexValue? high = some v ∧ hexValue? low = some w := by
  obtain ⟨v, hv, h⟩ := Option.bind_eq_some_iff.1 h
  obtain ⟨w, hw, -⟩ := Option.bind_eq_some_iff.1 h
  exact ⟨v, w, hv, hw⟩

theorem decode_cons_of_ne (h : b ≠ 0x25) (rest : List UInt8) :
    decode (b :: rest) = b :: decode rest := by
  rw [decode]
  rintro high low r rfl -
  exact h rfl

theorem decode_percent {high low : UInt8} (h : hexByte? high low = some b) (rest : List UInt8) :
    decode (0x25 :: high :: low :: rest) = b :: decode rest := by
  rw [decode, h]

variable {cs : List Char} {bytes : List UInt8}

theorem Spells.isQuiet (h : Spells cs bytes) (hcs : ∀ c ∈ cs, isTokenChar c = true) :
    ∀ b ∈ bytes, Percent.isQuiet b = true := by
  induction h with
  | nil => exact fun b hb => nomatch hb
  | @plain c cs bytes _ ih =>
    obtain ⟨hc, hcs⟩ := List.forall_mem_cons.1 hcs
    exact List.forall_mem_cons.2
      ⟨of_isTokenChar (P := fun c => Percent.isQuiet c.toNat.toUInt8) (by decide) hc, ih hcs⟩
  | @percent c cs bytes high low hhex _ ih =>
    obtain ⟨v, w, hv, hw⟩ := hexValue?_of_hexByte? hhex
    have hrest := ih (List.forall_mem_cons.1 hcs).2
    exact List.forall_mem_cons.2 ⟨by decide, List.forall_mem_cons.2
      ⟨isQuiet_of_hexValue? hv, List.forall_mem_cons.2 ⟨isQuiet_of_hexValue? hw, hrest⟩⟩⟩

theorem Spells.decode (h : Spells cs bytes) (hcs : ∀ c ∈ cs, isTokenChar c = true) :
    Percent.decode bytes = cs.map fun c => c.toNat.toUInt8 := by
  induction h with
  | nil => rfl
  | @plain c cs bytes _ ih =>
    obtain ⟨hc, hcs⟩ := List.forall_mem_cons.1 hcs
    have hne : c.toNat.toUInt8 ≠ 0x25 :=
      bne_iff_ne.1 (of_isTokenChar (P := fun c => c.toNat.toUInt8 != 0x25) (by decide) hc)
    rw [decode_cons_of_ne hne, ih hcs, List.map_cons]
  | @percent c cs bytes high low hhex _ ih =>
    rw [decode_percent hhex, ih (List.forall_mem_cons.1 hcs).2, List.map_cons]

/-- However a text of token characters is spelled in a query, it is read as it is. -/
theorem formText_of_spells (h : Spells cs bytes) (hcs : ∀ c ∈ cs, isTokenChar c = true) :
    formText bytes = String.ofList cs := by
  have hplus : (bytes.map fun b => if b = 0x2B then 0x20 else b) = bytes := by
    refine (List.map_congr_left fun b hb => if_neg ?_).trans (List.map_id bytes)
    have hquiet := h.isQuiet hcs b hb
    simp only [Percent.isQuiet, Bool.and_eq_true, bne_iff_ne] at hquiet
    exact hquiet.1.1
  have hnat : ∀ c ∈ cs, c.toNat.toUInt8.toNat = c.toNat := fun c hc =>
    UInt8.toNat_ofNat_of_lt (Nat.lt_trans (lt_of_isTokenChar (hcs c hc)) (by decide))
  have hascii : ∀ b ∈ cs.map fun c => c.toNat.toUInt8, b < 0x80 := by
    intro b hb
    obtain ⟨c, hc, rfl⟩ := List.mem_map.1 hb
    refine UInt8.lt_iff_toNat_lt.2 ?_
    rw [hnat c hc]
    exact lt_of_isTokenChar (hcs c hc)
  rw [formText, hplus, h.decode hcs, Utf8.lossyText, Utf8.decode_ascii _ hascii, List.map_map,
    List.map_map]
  congr 1
  refine (List.map_congr_left fun c hc => ?_).trans (List.map_id cs)
  change Char.ofNat c.toNat.toUInt8.toNat = c
  rw [hnat c hc, Char.ofNat_toNat]

end Cardroom.Text.Percent
