import Mathlib.Order.Nat
import RegionOutline.Proofs.Cancellation.Liveness
import RegionOutline.Proofs.Scan.Lines

/-!
# Scans that can be stopped

A scan asks a test before each line and once at the end. The test may remember and do
what it likes, but its questions are always the counts from zero on, so the answers
that it would give to these in order decide everything: the scan ends with nothing at
the first refusal, or else with the whole outline after the last question. A token is
such a test as well, and one that never takes a refusal back.
-/

namespace RegionOutline

namespace Asking

variable {σ : Type} (ask : Nat → σ → Bool × σ) (memory : σ)

/-- What a test remembers when it comes to be asked for a count, asked for all the
counts before it in order. -/
def memoryAt : Nat → σ
  | 0 => memory
  | count + 1 => (ask count (memoryAt count)).2

/-- The answer that it gives then. -/
def answerAt (count : Nat) : Bool :=
  (ask count (memoryAt ask memory count)).1

/-- The test that also writes down what it is asked. -/
def recorded (count : Nat) (state : σ × List Nat) : Bool × σ × List Nat :=
  ((ask count state.1).1, (ask count state.1).2, state.2 ++ [count])

theorem memoryAt_recorded (count : Nat) :
    memoryAt (recorded ask) (memory, []) count = (memoryAt ask memory count, List.range count) := by
  induction count with
  | zero => rfl
  | succ count ih => simp only [memoryAt, ih, recorded, List.range_succ]

theorem answerAt_recorded (count : Nat) :
    answerAt (recorded ask) (memory, []) count = answerAt ask memory count := by
  simp only [answerAt, memoryAt_recorded, recorded]

/-- The count is the first, up to a bound, that the test refuses. -/
structure Refuses (bound count : Nat) : Prop where
  le_bound : count ≤ bound
  agreed : ∀ earlier < count, answerAt ask memory earlier = true
  refused : answerAt ask memory count = false

theorem agrees_or_refuses (bound : Nat) :
    (∀ count ≤ bound, answerAt ask memory count = true) ∨
      ∃ count, Refuses ask memory bound count := by
  by_cases h : ∀ count ≤ bound, answerAt ask memory count = true
  · exact Or.inl h
  · right
    simp only [not_forall, Bool.not_eq_true] at h
    obtain ⟨later, hlater, hrefused⟩ := h
    have hsome : ∃ count, answerAt ask memory count = false := ⟨later, hrefused⟩
    refine ⟨Nat.find hsome, ?_, ?_, Nat.find_spec hsome⟩
    · exact (Nat.find_min' hsome hrefused).trans hlater
    · intro earlier hearlier
      simpa using Nat.find_min hsome hearlier

end Asking

open Asking

namespace Scanner

variable {σ : Type} {ask : Nat → σ → Bool × σ} {memory : σ}

theorem entriesWhile_nil (scanner : Scanner) :
    scanner.entriesWhile ask [] (memoryAt ask memory scanner.line) =
      (if answerAt ask memory scanner.line then some [] else none,
        memoryAt ask memory (scanner.line + 1)) := by
  rw [entriesWhile, memoryAt, answerAt]
  rcases ask scanner.line (memoryAt ask memory scanner.line) with ⟨_ | _, after⟩ <;> rfl

/-- One line of a scan. After a refusal no line is read and nothing more is asked. -/
theorem entriesWhile_cons (scanner : Scanner) (line : List Char) (rest : List (List Char)) :
    scanner.entriesWhile ask (line :: rest) (memoryAt ask memory scanner.line) =
      if answerAt ask memory scanner.line then
        ((scanner.feed line).1.entriesWhile ask rest (memoryAt ask memory (scanner.line + 1))).map
          (Option.map ((scanner.feed line).2.toList ++ ·)) id
      else (none, memoryAt ask memory (scanner.line + 1)) := by
  rw [entriesWhile, memoryAt, answerAt]
  rcases ask scanner.line (memoryAt ask memory scanner.line) with ⟨_ | _, after⟩
  · rfl
  · rcases hrest : (scanner.feed line).1.entriesWhile ask rest after with ⟨_ | later, last⟩ <;>
      simp [hrest]

/-- A test that agrees up to the end makes no difference. -/
theorem entriesWhile_of_agreed (scanner : Scanner) (lines : List (List Char))
    (agreed : ∀ count, scanner.line ≤ count → count ≤ scanner.line + lines.length →
      answerAt ask memory count = true) :
    scanner.entriesWhile ask lines (memoryAt ask memory scanner.line) =
      (some (scanner.entries lines), memoryAt ask memory (scanner.line + lines.length + 1)) := by
  have hnow := agreed scanner.line (Nat.le_refl _) (Nat.le_add_right _ _)
  induction lines generalizing scanner with
  | nil =>
      rw [entriesWhile_nil, if_pos hnow]
      rfl
  | cons line rest ih =>
      -- Memories are those of the whole run, so the next line's are at the next count.
      have hlength : scanner.line + 1 + rest.length = scanner.line + (line :: rest).length := by
        rw [List.length_cons]
        omega
      have hrest : (scanner.feed line).1.entriesWhile ask rest
            (memoryAt ask memory (scanner.line + 1)) =
          (some ((scanner.feed line).1.entries rest),
            memoryAt ask memory (scanner.line + 1 + rest.length + 1)) := by
        apply ih (scanner.feed line).1
        · intro count hfrom hto
          exact agreed count (Nat.le_of_succ_le hfrom) (hto.trans_eq hlength)
        · exact agreed (scanner.line + 1) (Nat.le_succ _) (by omega)
      rw [entriesWhile_cons, if_pos hnow, hrest, entries_cons, hlength]
      rfl

/-- At the first refusal the scan ends with nothing. -/
theorem entriesWhile_of_refused (scanner : Scanner) (lines : List (List Char)) {count : Nat}
    (hfrom : scanner.line ≤ count) (hto : count ≤ scanner.line + lines.length)
    (agreed : ∀ earlier, scanner.line ≤ earlier → earlier < count →
      answerAt ask memory earlier = true)
    (refused : answerAt ask memory count = false) :
    scanner.entriesWhile ask lines (memoryAt ask memory scanner.line) =
      (none, memoryAt ask memory (count + 1)) := by
  induction lines generalizing scanner with
  | nil =>
      obtain rfl : scanner.line = count := Nat.le_antisymm hfrom hto
      rw [entriesWhile_nil, refused]
      rfl
  | cons line rest ih =>
      rw [entriesWhile_cons]
      rcases Nat.eq_or_lt_of_le hfrom with rfl | hlater
      · rw [refused]
        rfl
      · have hrest : (scanner.feed line).1.entriesWhile ask rest
              (memoryAt ask memory (scanner.line + 1)) =
            (none, memoryAt ask memory (count + 1)) := by
          apply ih (scanner.feed line).1 hlater
          · rw [List.length_cons] at hto
            change count ≤ scanner.line + 1 + rest.length
            omega
          · intro earlier hfirst
            exact agreed earlier (Nat.le_of_succ_le hfirst)
        rw [if_pos (agreed scanner.line (Nat.le_refl _) hlater), hrest]
        rfl

end Scanner

section Tests

variable {σ : Type} {ask : Nat → σ → Bool × σ} {memory : σ} {text : String}

theorem scanWhile_of_agreed
    (agreed : ∀ count ≤ sourceLineCount text, answerAt ask memory count = true) :
    scanWhile ask text memory =
      (some (scan text), memoryAt ask memory (sourceLineCount text + 1)) := by
  have hrun := ({} : Scanner).entriesWhile_of_agreed (Text.sourceLines text.toList)
    (fun count _ hto => agreed count (hto.trans_eq (Nat.zero_add _)))
  rw [Nat.zero_add] at hrun
  exact hrun

theorem scanWhile_of_refused {count : Nat}
    (refuses : Refuses ask memory (sourceLineCount text) count) :
    scanWhile ask text memory = (none, memoryAt ask memory (count + 1)) := by
  apply ({} : Scanner).entriesWhile_of_refused
  · exact Nat.zero_le count
  · exact refuses.le_bound.trans_eq (Nat.zero_add _).symm
  · exact fun earlier _ hlt => refuses.agreed earlier hlt
  · exact refuses.refused

theorem Asking.Refuses.recorded {bound count : Nat} (refuses : Refuses ask memory bound count) :
    Refuses (recorded ask) (memory, []) bound count where
  le_bound := refuses.le_bound
  agreed earlier hlt := by
    rw [answerAt_recorded]
    exact refuses.agreed earlier hlt
  refused := by
    rw [answerAt_recorded]
    exact refuses.refused

theorem scanWhile_recorded_of_agreed
    (agreed : ∀ count ≤ sourceLineCount text, answerAt ask memory count = true) :
    scanWhile (recorded ask) text (memory, []) =
      (some (scan text), memoryAt ask memory (sourceLineCount text + 1),
        List.range (sourceLineCount text + 1)) := by
  rw [scanWhile_of_agreed, memoryAt_recorded]
  intro count hcount
  rw [answerAt_recorded]
  exact agreed count hcount

theorem scanWhile_recorded_of_refused {count : Nat}
    (refuses : Refuses ask memory (sourceLineCount text) count) :
    scanWhile (recorded ask) text (memory, []) =
      (none, memoryAt ask memory (count + 1), List.range (count + 1)) := by
  rw [scanWhile_of_refused refuses.recorded, memoryAt_recorded]

/-- Writing the questions down changes nothing else. -/
theorem scanWhile_eq_recorded (ask : Nat → σ → Bool × σ) (memory : σ) (text : String) :
    scanWhile ask text memory =
      (scanWhile (recorded ask) text (memory, [])).map id Prod.fst := by
  rcases agrees_or_refuses ask memory (sourceLineCount text) with agreed | ⟨count, refuses⟩
  · rw [scanWhile_of_agreed agreed, scanWhile_recorded_of_agreed agreed]
    rfl
  · rw [scanWhile_of_refused refuses, scanWhile_recorded_of_refused refuses]
    rfl

end Tests

section Looks

variable {cancelled : Nat → Bool} {text : String}

theorem scanUnless_of_live (live : ∀ look ≤ sourceLineCount text + 1, cancelled look = false) :
    scanUnless cancelled text = some (scan text) := by
  have hfirst : cancelled 0 = false := live 0 (Nat.zero_le _)
  rw [scanUnless, hfirst, scanWhile_of_agreed]
  · rfl
  · intro count hcount
    have hlook : cancelled (count + 1) = false := live (count + 1) (by omega)
    simp [answerAt, hlook]

theorem scanUnless_of_cancelled {look : Nat} (hlook : look ≤ sourceLineCount text + 1)
    (hcancelled : cancelled look = true) : scanUnless cancelled text = none := by
  rw [scanUnless]
  split
  · rfl
  · rename_i hfirst
    rcases agrees_or_refuses (fun count _ => (!cancelled (count + 1), ())) ()
      (sourceLineCount text) with agreed | ⟨count, refuses⟩
    -- The look before the scan was live, so the cancelled one is among its questions.
    · cases look with
      | zero => exact absurd hcancelled hfirst
      | succ count =>
          have hanswer := agreed count (by omega)
          simp [answerAt, hcancelled] at hanswer
    · rw [scanWhile_of_refused refuses]

end Looks

namespace CancelRegistry.History

/-- The history by the time of a look, where the given calls come just before each
look. -/
def atLook (scopes : Nat) (calls : List Call) (between : Nat → List Call) (look : Nat) : History :=
  ofCalls scopes (calls ++ (List.range (look + 1)).flatMap between)

variable {scopes : Nat} {calls : List Call} {between : Nat → List Call} {token : Token}

theorem ofCalls_append (scopes : Nat) (first second : List Call) :
    ofCalls scopes (first ++ second) = second.foldl perform (ofCalls scopes first) :=
  List.foldl_append

theorem atLook_succ (look : Nat) :
    atLook scopes calls between (look + 1) =
      (between (look + 1)).foldl perform (atLook scopes calls between look) := by
  rw [atLook, atLook, ← ofCalls_append, List.range_succ, List.flatMap_append,
    List.flatMap_singleton, List.append_assoc]

theorem mem_handles_foldl {history : History} (held : token ∈ history.handles)
    (calls : List Call) : token ∈ (calls.foldl perform history).handles := by
  induction calls generalizing history with
  | nil => exact held
  | cons call rest ih => exact ih (mem_handles_perform held call)

/-- What is live at a look was so at every look before. -/
theorem isLive_atLook_of_le (held : token ∈ (ofCalls scopes calls).handles) {earlier look : Nat}
    (hle : earlier ≤ look)
    (live : (atLook scopes calls between look).registry.isLive token = true) :
    (atLook scopes calls between earlier).registry.isLive token = true := by
  induction look, hle using Nat.le_induction with
  | base => exact live
  | succ look _ ih =>
      apply ih
      rw [atLook_succ] at live
      apply (kept_ofCalls scopes _).isLive_of_calls _ _ live
      rw [ofCalls_append]
      exact mem_handles_foldl held _

end CancelRegistry.History

open CancelRegistry

/-- What a scan of the text that can be stopped comes to. -/
structure AllOrNothing (text : String) : Prop where
  /-- Writing the questions down changes nothing else. -/
  recorded_eq : ∀ {σ : Type} (ask : Nat → σ → Bool × σ) (memory : σ),
    scanWhile ask text memory = (scanWhile (recorded ask) text (memory, [])).map id Prod.fst
  /-- A test that agrees to all counts is asked for each once, in order, and the outcome
  is the outline. -/
  agreed : ∀ {σ : Type} (ask : Nat → σ → Bool × σ) (memory : σ),
    (∀ count ≤ sourceLineCount text, answerAt ask memory count = true) →
      scanWhile (recorded ask) text (memory, []) =
        (some (scan text), memoryAt ask memory (sourceLineCount text + 1),
          List.range (sourceLineCount text + 1))
  /-- Any other test is asked in the same way up to its first refusal, and the outcome
  is nothing. -/
  refused : ∀ {σ : Type} (ask : Nat → σ → Bool × σ) (memory : σ),
    (∃ count ≤ sourceLineCount text, answerAt ask memory count = false) →
      ∃ count, Refuses ask memory (sourceLineCount text) count ∧
        scanWhile (recorded ask) text (memory, []) =
          (none, memoryAt ask memory (count + 1), List.range (count + 1))
  /-- A token that is live at every look lets the scan come to its end. -/
  live : ∀ cancelled : Nat → Bool, (∀ look ≤ sourceLineCount text + 1, cancelled look = false) →
    scanUnless cancelled text = some (scan text)
  /-- One look at a cancelled token is enough to end it with nothing. -/
  cancelled : ∀ cancelled : Nat → Bool, (∃ look ≤ sourceLineCount text + 1, cancelled look = true) →
    scanUnless cancelled text = none
  /-- Tokens stay cancelled, whatever is called between the looks, so the last look
  decides. -/
  last_look : ∀ (scopes : Nat) (calls : List Call) (between : Nat → List Call) (token : Token),
    token ∈ (History.ofCalls scopes calls).handles →
      scanUnless
          (fun look => !(History.atLook scopes calls between look).registry.isLive token) text =
        if (History.atLook scopes calls between (sourceLineCount text + 1)).registry.isLive token
        then some (scan text) else none

/-- However a scan is stopped, it gives the whole outline or nothing, and it asks for
the counts of lines in order and no further than the first refusal. -/
theorem stoppable_scan_all_or_nothing (text : String) : AllOrNothing text where
  recorded_eq ask memory := scanWhile_eq_recorded ask memory text
  agreed _ _ agreed := scanWhile_recorded_of_agreed agreed
  refused ask memory := by
    rintro ⟨later, hlater, hrefused⟩
    rcases agrees_or_refuses ask memory (sourceLineCount text) with agreed | ⟨count, refuses⟩
    · exact absurd (agreed later hlater) (by simp [hrefused])
    · exact ⟨count, refuses, scanWhile_recorded_of_refused refuses⟩
  live _ live := scanUnless_of_live live
  cancelled := by
    rintro cancelled ⟨look, hlook, hcancelled⟩
    exact scanUnless_of_cancelled hlook hcancelled
  last_look := by
    intro scopes calls between token held
    split
    · rename_i live
      apply scanUnless_of_live
      intro look hlook
      rw [History.isLive_atLook_of_le held hlook live]
      rfl
    · rename_i dead
      apply scanUnless_of_cancelled (Nat.le_refl _)
      simpa using dead

end RegionOutline
