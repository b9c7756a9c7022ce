import RegionOutline.Proofs.Session.Ledger

/-!
# Rebuilds without a text

A rebuild for which the host has no text keeps the entries of the moment, but it
supersedes the scan under way like any other rebuild. Put into a play, it changes
the index at the end in exactly one case: if the outline shown there would have
been that of the scan under way. Then the entries of the moment stay instead.
-/

namespace RegionOutline

/-- A rebuild for which there is no text. -/
def Cue.textless : Cue := .request (.rebuild none) rfl

namespace Ledger

/-- How the ledger of a play and that of the same play with a rebuild without a
text put in compare, `base` being the ledger at that point. Until something else
supersedes the scan that was current there, the two differ in that scan; from
then on at most in what they show. -/
structure Alongside (base plain inserted : Ledger) : Prop where
  texts_eq : inserted.texts = plain.texts
  grown : base.texts <+: plain.texts
  current : (inserted.current = none ∧ plain.current = base.current ∧
      inserted.shown = base.shown) ∨
    (inserted.current = plain.current ∧
      ∀ number, plain.current = some number → base.texts.length ≤ number)
  shown : inserted.shown = plain.shown ∨
    (inserted.shown = base.shown ∧ base.current ≠ none ∧ plain.shown = base.current)
  /-- Nothing older than the rebuild comes to be shown after it. -/
  old : ∀ number, inserted.shown = some number → number < base.texts.length →
    base.shown = some number

variable {base plain inserted : Ledger}

theorem alongside_textless (base : Ledger) : Alongside base base (base.step .textless) where
  texts_eq := rfl
  grown := List.prefix_rfl
  current := Or.inl ⟨rfl, rfl, rfl⟩
  shown := Or.inl rfl
  old _ hnumber _ := hnumber

/-- A report is shown in both plays or in neither, unless it is the one that the
rebuild made stale. -/
theorem Alongside.step_report (alongside : Alongside base plain inserted) (number : Nat) :
    Alongside base (plain.step (.report number)) (inserted.step (.report number)) := by
  rcases alongside.current with ⟨hnone, hbase, hkept⟩ | ⟨hsame, hnew⟩
  · have hinserted : inserted.step (.report number) = inserted := by
      simp [step, hnone]
    rw [hinserted]
    by_cases hcurrent : plain.current = some number
    · have hplain : plain.step (.report number) = { plain with shown := some number } := by
        simp only [step, hcurrent, if_true]
      rw [hplain]
      have hnumber : base.current = some number := hbase ▸ hcurrent
      refine ⟨alongside.texts_eq, alongside.grown, Or.inl ⟨hnone, hbase, hkept⟩,
        Or.inr ⟨hkept, ?_, hnumber.symm⟩, alongside.old⟩
      rw [hnumber]
      simp
    · have hplain : plain.step (.report number) = plain := by
        simp only [step, hcurrent, if_false]
      rw [hplain]
      exact alongside
  · by_cases hcurrent : plain.current = some number
    · have hplain : plain.step (.report number) = { plain with shown := some number } := by
        simp only [step, hcurrent, if_true]
      have hinserted :
          inserted.step (.report number) = { inserted with shown := some number } := by
        simp only [step, hsame, hcurrent, if_true]
      rw [hplain, hinserted]
      refine ⟨alongside.texts_eq, alongside.grown, Or.inr ⟨hsame, hnew⟩, Or.inl rfl, ?_⟩
      intro other hother hlt
      cases hother
      exact absurd hlt (Nat.not_lt.2 (hnew number hcurrent))
    · have hplain : plain.step (.report number) = plain := by
        simp only [step, hcurrent, if_false]
      have hinserted : inserted.step (.report number) = inserted := by
        simp only [step, hsame, hcurrent, if_false]
      rw [hplain, hinserted]
      exact alongside

theorem Alongside.step (alongside : Alongside base plain inserted) (cue : Cue) :
    Alongside base (plain.step cue) (inserted.step cue) := by
  match cue with
  | .request (.rebuild none) _ =>
      exact ⟨alongside.texts_eq, alongside.grown, Or.inr ⟨rfl, by simp [Ledger.step]⟩,
        alongside.shown, alongside.old⟩
  | .request (.rebuild (some text)) _ =>
      have hlength := alongside.grown.length_le
      refine ⟨?_, alongside.grown.trans (List.prefix_append _ _), Or.inr ⟨?_, ?_⟩,
        alongside.shown, alongside.old⟩
      · simp only [Ledger.step, alongside.texts_eq]
      · simp only [Ledger.step, alongside.texts_eq]
      · intro number hnumber
        cases hnumber
        exact hlength
  | .request .close _ =>
      exact ⟨alongside.texts_eq, alongside.grown, Or.inr ⟨rfl, by simp [Ledger.step]⟩,
        Or.inl rfl, by simp [Ledger.step]⟩
  | .request (.caretMoved line) _ => exact alongside
  | .request (.entryActivated line documentLines) _ => exact alongside
  | .report number => exact alongside.step_report number

theorem Alongside.foldl (alongside : Alongside base plain inserted) (cues : List Cue) :
    Alongside base (cues.foldl Ledger.step plain) (cues.foldl Ledger.step inserted) := by
  induction cues generalizing plain inserted with
  | nil => exact alongside
  | cons cue rest ih => exact ih (alongside.step cue)

/-- The ledgers after the cues, without and with the rebuild put in. -/
theorem alongside_ofCues (before after : List Cue) :
    Alongside (ofCues before) (ofCues (before ++ after))
      (ofCues (before ++ .textless :: after)) := by
  rw [ofCues_append, ofCues_append]
  exact (alongside_textless (ofCues before)).foldl after

end Ledger

open Ledger

/-- The scan under way after the first cues is the one shown in the end. -/
def ShowsPending (settings : Settings) (before after : List Cue) : Prop :=
  (Play.ofCues settings before).session.inFlight.isSome = true ∧
    (Ledger.ofCues (before ++ after)).shown = (Ledger.ofCues before).current

theorem index_eq_of_outline_eq (settings : Settings) {first second : List Cue}
    (h : (Ledger.ofCues first).outline = (Ledger.ofCues second).outline) :
    (Play.ofCues settings first).session.index = (Play.ofCues settings second).session.index := by
  rw [Index.mk.injEq]
  rw [(tells_ofCues settings first).index_eq, (tells_ofCues settings second).index_eq, h]

/-- The rebuild makes the scan under way the last one not to be shown. -/
theorem shown_of_showsPending {settings : Settings} {before after : List Cue}
    (h : ShowsPending settings before after) :
    (Ledger.ofCues (before ++ .textless :: after)).shown = (Ledger.ofCues before).shown := by
  obtain ⟨hinFlight, hshown⟩ := h
  have tells := tells_ofCues settings before
  have alongside := alongside_ofCues before after
  obtain ⟨hcurrent, hpending⟩ := tells.inFlight_iff.1 hinFlight
  rcases alongside.shown with hsame | ⟨hkept, _, _⟩
  · obtain ⟨number, hnumber⟩ := Option.ne_none_iff_exists'.1 hcurrent
    have hinserted := (hsame.trans hshown).trans hnumber
    have hlast := tells.current_last number hnumber
    have hold := alongside.old number hinserted (by omega)
    exact absurd (hold.trans hnumber.symm) hpending
  · exact hkept

theorem shown_of_not_showsPending {settings : Settings} {before after : List Cue}
    (h : ¬ ShowsPending settings before after) :
    (Ledger.ofCues (before ++ .textless :: after)).shown =
      (Ledger.ofCues (before ++ after)).shown := by
  have tells := tells_ofCues settings before
  rcases (alongside_ofCues before after).shown with hsame | ⟨hkept, hcurrent, hshown⟩
  · exact hsame
  · -- The scan was current but not under way, so it was shown before already.
    have hshownBefore : (Ledger.ofCues before).shown = (Ledger.ofCues before).current := by
      by_contra hpending
      exact h ⟨tells.inFlight_iff.2 ⟨hcurrent, hpending⟩, hshown⟩
    exact hkept.trans (hshownBefore.trans hshown.symm)

/-- The scan under way is the last one asked for, and its text is the one shown in
the end. -/
theorem exists_text_of_showsPending {settings : Settings} {before after : List Cue}
    (h : ShowsPending settings before after) :
    ∃ text, (Play.ofCues settings before).orders.getLast?.map ScanOrder.source = some text ∧
      (Play.ofCues settings (before ++ after)).session.index.entries = scan text := by
  obtain ⟨hinFlight, hshown⟩ := h
  have tells := tells_ofCues settings before
  obtain ⟨number, hnumber⟩ := Option.ne_none_iff_exists'.1 (tells.inFlight_iff.1 hinFlight).1
  have hlast := tells.current_last number hnumber
  have hlt : number < (Ledger.ofCues before).texts.length := by omega
  refine ⟨(Ledger.ofCues before).texts[number], ?_, ?_⟩
  · rw [← List.getLast?_map, tells.texts_eq, List.getLast?_eq_getElem?, ← hlast,
      Nat.add_sub_cancel, List.getElem?_eq_getElem hlt]
  · obtain ⟨more, hmore⟩ := (alongside_ofCues before after).grown
    rw [(tells_ofCues settings (before ++ after)).index_eq, outline, hshown, hnumber,
      Option.bind_some, ← hmore, List.getElem?_append_left hlt, List.getElem?_eq_getElem hlt]
    rfl

/-- What a rebuild without a text, put in between the cues, does to the index. -/
structure KeepsOutline (settings : Settings) (before after : List Cue) : Prop where
  /-- It keeps the entries of the moment. -/
  kept : (Play.ofCues settings (before ++ [.textless])).session.index =
    (Play.ofCues settings before).session.index
  /-- Nor does it change the entries at the end, unless they are those of the scan
  that was under way. -/
  same : ¬ ShowsPending settings before after →
    (Play.ofCues settings (before ++ .textless :: after)).session.index =
      (Play.ofCues settings (before ++ after)).session.index
  /-- Then the entries of the moment stay in their place. -/
  superseded : ShowsPending settings before after →
    (Play.ofCues settings (before ++ .textless :: after)).session.index =
      (Play.ofCues settings before).session.index ∧
    ∃ text, (Play.ofCues settings before).orders.getLast?.map ScanOrder.source = some text ∧
      (Play.ofCues settings (before ++ after)).session.index.entries = scan text

/-- A rebuild without a text is a no-op for the index at the end of every run with
true reports, except that the scan under way is superseded by it. -/
theorem textless_rebuild_keeps_outline (settings : Settings) :
    (∀ messages, Session.Faithful settings messages ↔
      ∃ cues, (Play.ofCues settings cues).messages = messages) ∧
    ∀ before after, KeepsOutline settings before after := by
  refine ⟨fun messages => Play.faithful_iff_exists_cues, fun before after => ?_⟩
  have tells := tells_ofCues settings before
  have alongside := alongside_ofCues before after
  constructor
  · apply index_eq_of_outline_eq
    rw [Ledger.ofCues_concat]
    rfl
  · intro h
    apply index_eq_of_outline_eq
    unfold outline
    rw [shown_of_not_showsPending h, alongside.texts_eq]
  · intro h
    constructor
    · apply index_eq_of_outline_eq
      apply outline_eq_of_shown _ tells.shown_lt (shown_of_showsPending h)
      rw [alongside.texts_eq]
      exact alongside.grown
    · exact exists_text_of_showsPending h

/-- A rebuild without a text can change the index at the end. -/
theorem not_textless_rebuild_neutral :
    ¬ ∀ (settings : Settings) (before after : List Cue),
      (Play.ofCues settings (before ++ .textless :: after)).session.index =
        (Play.ofCues settings (before ++ after)).session.index := by
  intro neutral
  have hindex := neutral {} [.request (.rebuild (some "public:")) rfl] [.report 0]
  revert hindex
  decide

end RegionOutline
