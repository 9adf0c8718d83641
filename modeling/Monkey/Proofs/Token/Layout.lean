import Monkey.Proofs.Token.Tiling
import Monkey.Proofs.Tree.Relabel

/-!
# Sources with the same tokens

Two sources whose tokens have the same kinds and texts can still have them in different places. All
they can differ in is their blanks: no byte of a token is a blank, and the kind and the text of a
token say which bytes it was cut from. That is so for a byte without a meaning as well, though its
text is not the byte itself but the encoding of the character with its number.
-/

namespace Monkey.Token

/-- The tokens of the two sources have the same kinds and texts, one by one. -/
def SameTokens (a b : Bytes) : Prop :=
  (tokens a).map (fun t => (t.kind, t.literal)) = (tokens b).map fun t => (t.kind, t.literal)

instance (a b : Bytes) : Decidable (SameTokens a b) := inferInstanceAs (Decidable (_ = _))

/-- The bytes that are no blanks. -/
def visible (source : Bytes) : Bytes := source.filter fun b => !isBlank b

theorem visible_append (a b : Bytes) : visible (a ++ b) = visible a ++ visible b :=
  List.filter_append a b

theorem visible_of_isBlank {bs : Bytes} (h : ∀ b ∈ bs, isBlank b = true) : visible bs = [] := by
  rw [visible, List.filter_eq_nil_iff]
  simpa using h

theorem visible_of_not_isBlank {bs : Bytes} (h : ∀ b ∈ bs, isBlank b = false) :
    visible bs = bs := by
  rw [visible, List.filter_eq_self]
  simpa using h

theorem byteKind_of_isBlank {b : UInt8} (h : isBlank b = true) : byteKind b = .illegal := by
  simp only [isBlank, Bool.or_eq_true, beq_iff_eq] at h
  rcases h with ((rfl | rfl) | rfl) | rfl <;> rfl

/-- The text kept of a byte without a meaning tells which byte it was. -/
theorem encode_injective {b c : UInt8}
    (h : String.utf8EncodeChar (Char.ofNat b.toNat) = String.utf8EncodeChar (Char.ofNat c.toNat)) :
    b = c := by
  have hdecode : ∀ x : Char, (String.utf8EncodeChar x).toByteArray.utf8DecodeChar? 0 = some x := by
    intro x
    simpa using @ByteArray.utf8DecodeChar?_utf8EncodeChar_append .empty x
  have hnumber : ∀ b : UInt8, (Char.ofNat b.toNat).toNat = b.toNat := by
    intro b
    have hvalid : b.toNat.isValidChar := .inl (Nat.lt_trans b.toNat_lt (by decide))
    rw [Char.ofNat, dif_pos hvalid]
    rfl
  have hchar : Char.ofNat b.toNat = Char.ofNat c.toNat :=
    Option.some.inj <| by rw [← hdecode, h, hdecode]
  rw [← UInt8.toNat_inj, ← hnumber b, hchar, hnumber c]

namespace Cut

variable {before after before' after' slice slice' literal : Bytes} {kind : Kind}

theorem isBlank_eq_false (h : Cut before after slice kind literal) :
    ∀ b ∈ slice, isBlank b = false := by
  cases h with
  | word _ hslice => exact fun b hb => Token.isBlank_eq_false (.inl (hslice b hb))
  | number _ hslice => exact fun b hb => Token.isBlank_eq_false (.inr (hslice b hb))
  | equal => simp [isBlank]
  | notEqual => simp [isBlank]
  | symbol hkind =>
      rw [List.forall_mem_singleton, ← Bool.not_eq_true]
      exact fun hblank => hkind (byteKind_of_isBlank hblank)
  | illegal hblank => exact List.forall_mem_singleton.mpr hblank

theorem slice_eq_literal (h : Cut before after slice kind literal) (hkind : kind ≠ .illegal) :
    slice = literal := by
  cases h with
  | illegal => exact absurd rfl hkind
  | _ => rfl

theorem exists_of_illegal (h : Cut before after slice .illegal literal) :
    ∃ b : UInt8, slice = [b] ∧ literal = String.utf8EncodeChar (Char.ofNat b.toNat) := by
  generalize hkind : Kind.illegal = kind at h
  cases h with
  | illegal => exact ⟨_, rfl, rfl⟩
  | word => exact absurd hkind.symm (wordKind_ne_illegal _)
  | symbol hne => exact absurd hkind.symm hne
  | _ => cases hkind

/-- The kind and the text of a token say which bytes it was cut from. -/
theorem slice_unique (h : Cut before after slice kind literal)
    (h' : Cut before' after' slice' kind literal) : slice = slice' := by
  by_cases hkind : kind = .illegal
  · subst hkind
    obtain ⟨b, rfl, rfl⟩ := h.exists_of_illegal
    obtain ⟨c, rfl, hliteral⟩ := h'.exists_of_illegal
    rw [encode_injective hliteral]
  · rw [h.slice_eq_literal hkind, h'.slice_eq_literal hkind]

end Cut

namespace Piece

/-- The piece is one of some source. -/
def Fitting (p : Piece) : Prop := ∃ before after, p.Fits before after

theorem visible_textOf {ps : List Piece} (h : ∀ p ∈ ps, p.Fitting) :
    visible (textOf ps) = ps.flatMap slice := by
  induction ps with
  | nil => rfl
  | cons p ps ih =>
      obtain ⟨⟨before, after, hp⟩, hps⟩ := List.forall_mem_cons.mp h
      rw [textOf_cons, visible_append, visible_append, visible_of_isBlank hp.isBlank,
        visible_of_not_isBlank hp.cut.isBlank_eq_false, ih hps, List.nil_append, List.flatMap_cons]

theorem flatMap_slice_eq {ps qs : List Piece} (hps : ∀ p ∈ ps, p.Fitting)
    (hqs : ∀ q ∈ qs, q.Fitting)
    (h : ps.map (fun p => (p.token.kind, p.token.literal)) =
      qs.map fun q => (q.token.kind, q.token.literal)) :
    ps.flatMap slice = qs.flatMap slice := by
  induction ps generalizing qs with
  | nil =>
      obtain rfl : qs = [] := List.map_eq_nil_iff.mp h.symm
      rfl
  | cons p ps ih =>
      obtain ⟨q, qs, rfl, hq, hrest⟩ := List.map_eq_cons_iff.mp h.symm
      obtain ⟨⟨before, after, hp⟩, hps⟩ := List.forall_mem_cons.mp hps
      obtain ⟨⟨before', after', hq'⟩, hqs⟩ := List.forall_mem_cons.mp hqs
      obtain ⟨hkind, hliteral⟩ := Prod.mk.inj hq
      have hcut := hq'.cut
      rw [hkind, hliteral] at hcut
      rw [List.flatMap_cons, List.flatMap_cons, hp.cut.slice_unique hcut, ih hps hqs hrest.symm]

end Piece

/-- A source is made up of pieces and of blanks. -/
theorem exists_fitting (source : Bytes) :
    ∃ pieces tail, source = Piece.textOf pieces ++ tail ∧
      (Stream.ofSource source).items = pieces.map Piece.token ∧
      (∀ b ∈ tail, isBlank b = true) ∧ ∀ p ∈ pieces, p.Fitting := by
  obtain ⟨ts, stop, hscans⟩ := Cursor.exists_scans ⟨source, .start⟩
  have hitems : (Stream.ofSource source).items = ts := congrArg Prod.fst (scan_of_scans hscans)
  have hapart : Apart [] source := fun b hb => absurd hb (by simp)
  obtain ⟨pieces, tail, hsource, rfl, htail, hall⟩ := hscans.exists_pieces rfl hapart
  refine ⟨pieces, tail, hsource, hitems, htail, fun p hp => ?_⟩
  obtain ⟨us, vs, heq⟩ := List.append_of_mem hp
  exact ⟨_, _, hall us p vs heq⟩

namespace SameTokens

variable {a b : Bytes}

theorem items (h : SameTokens a b) :
    (Stream.ofSource a).items.map (fun t => (t.kind, t.literal)) =
      (Stream.ofSource b).items.map fun t => (t.kind, t.literal) := by
  unfold SameTokens tokens Stream.drain at h
  rw [List.map_append, List.map_append] at h
  exact List.append_cancel_right h

theorem items_unplaced (h : SameTokens a b) :
    (Stream.ofSource a).items.map unplaced = (Stream.ofSource b).items.map unplaced := by
  have hmap := congrArg (List.map fun entry => Token.mk entry.1 entry.2 .start) h.items
  rw [List.map_map, List.map_map] at hmap
  exact hmap

/-- Sources with the same tokens differ in their blanks only. -/
theorem visible_eq (h : SameTokens a b) : visible a = visible b := by
  obtain ⟨ps, tail, ha, hps, htail, hfits⟩ := exists_fitting a
  obtain ⟨qs, tail', hb, hqs, htail', hfits'⟩ := exists_fitting b
  have hitems := h.items
  rw [hps, hqs, List.map_map, List.map_map] at hitems
  rw [ha, hb, visible_append, visible_append, visible_of_isBlank htail, visible_of_isBlank htail',
    Piece.visible_textOf hfits, Piece.visible_textOf hfits',
    Piece.flatMap_slice_eq hfits hfits' hitems]

end SameTokens

end Monkey.Token
