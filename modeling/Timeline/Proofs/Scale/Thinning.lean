import Timeline.Proofs.Scale.InPlace
import Timeline.Proofs.Scale.Lookup

/-! # Runs without idle steps

A question changes nothing but where the next search starts, and an edit that fails changes
nothing. So these steps can be left out of a run: the others get the same replies, and the scale
ends with the same contents. -/
namespace Timeline

variable {α : Type}

/-- Does the reply say that an edit was made? -/
def Reply.isDone : Reply α → Bool
  | done => true
  | failed _ | answered _ => false

/-- The reply to an edit in place. -/
def Reply.ofResult : Except ScaleError Unit → Reply α
  | .ok () => done
  | .error cause => failed cause

namespace TimeScale

/-- Two scales that differ at most in where the next search starts. -/
structure SameContents (s s' : TimeScale α) : Prop where
  groups_eq : s.groups = s'.groups
  leaves_eq : s.leaves = s'.leaves
  unitCount_eq : s.unitCount = s'.unitCount
  size_eq : s.size = s'.size

namespace SameContents

variable {s s' s'' : TimeScale α}

lemma of_hint (s : TimeScale α) (index : Nat) : s.SameContents { s with hint := index } :=
  ⟨rfl, rfl, rfl, rfl⟩

lemma refl (s : TimeScale α) : s.SameContents s := of_hint s s.hint

lemma trans (h : s.SameContents s') (h' : s'.SameContents s'') : s.SameContents s'' :=
  ⟨h.1.trans h'.1, h.2.trans h'.2, h.3.trans h'.3, h.4.trans h'.4⟩

lemma symm (h : s.SameContents s') : s'.SameContents s := ⟨h.1.symm, h.2.symm, h.3.symm, h.4.symm⟩

lemma exists_hint (h : s.SameContents s') : ∃ index, s' = { s with hint := index } := by
  obtain ⟨groups, leaves, unitCount, size, hint, hne⟩ := s'
  obtain ⟨rfl, rfl, rfl, rfl⟩ := h
  exact ⟨hint, rfl⟩

end SameContents

/-- Two attempts at an edit that failed for the same cause, or that made scales with the same
contents. -/
inductive SameResult : Except ScaleError (TimeScale α) → Except ScaleError (TimeScale α) → Prop
  | error (cause : ScaleError) : SameResult (.error cause) (.error cause)
  | ok {s s' : TimeScale α} (h : s.SameContents s') : SameResult (.ok s) (.ok s')

lemma SameResult.refl (result : Except ScaleError (TimeScale α)) : SameResult result result := by
  cases result with
  | error cause => exact .error cause
  | ok s => exact .ok (.refl s)

variable [Measure α] {s s' : TimeScale α}

/-- No edit looks at where the next search starts. -/
lemma SameContents.apply (h : s.SameContents s') (e : Edit α) :
    SameResult (e.apply s) (e.apply s') := by
  obtain ⟨index, rfl⟩ := h.exists_hint
  cases e with
  | setTimes | moveTo | setPrimeDate | restore => exact .refl _
  | setSize | setDisplay | restoreDisplay => exact .ok (.of_hint _ index)

lemma SameContents.ask (h : s.SameContents s') (hs : ScaleLeaf.Contiguous s.leaves) (q : Query) :
    (q.ask s).1 = (q.ask s').1 := by
  obtain ⟨index, rfl⟩ := h.exists_hint
  calc (q.ask s).1 = q.answer s := ask_fst hs q
    _ = q.answer { s with hint := index } := (answer_hint s index q).symm
    _ = (q.ask { s with hint := index }).1 :=
      (ask_fst (s := { s with hint := index }) hs q).symm

lemma sameContents_ask (s : TimeScale α) (q : Query) : s.SameContents (q.ask s).2 := by
  obtain ⟨index, hs⟩ := s.ask_snd q
  exact hs ▸ .of_hint s index

/-- What an operation does is up to the contents of a scale. -/
theorem SameContents.perform (h : s.SameContents s') (hs : ScaleLeaf.Contiguous s.leaves)
    (op : Operation α) : (s.perform op).1 = (s'.perform op).1 ∧
      (s.perform op).2.SameContents (s'.perform op).2 := by
  cases op with
  | ask q =>
    refine ⟨congrArg Reply.answered (h.ask hs q), ?_⟩
    exact (sameContents_ask s q).symm.trans (h.trans (sameContents_ask s' q))
  | edit e =>
    have hresult := h.apply e
    unfold TimeScale.perform
    dsimp only
    generalize e.apply s = result at hresult
    generalize e.apply s' = result' at hresult
    cases hresult with
    | error cause => exact ⟨rfl, h⟩
    | ok hmade => exact ⟨rfl, hmade⟩

/-- Only an edit that is made changes the contents of a scale. -/
lemma sameContents_perform {op : Operation α} (h : (s.perform op).1.isDone = false) :
    s.SameContents (s.perform op).2 := by
  cases op with
  | ask q => exact sameContents_ask s q
  | edit e =>
    unfold perform at h ⊢
    dsimp only at h ⊢
    cases hresult : e.apply s with
    | ok made =>
      rw [hresult] at h
      cases h
    | error cause => exact .refl s

/-- The operations of a run, each with its reply. -/
def transcript (s : TimeScale α) (ops : List (Operation α)) : List (Operation α × Reply α) :=
  ops.zip (s.run ops).1

lemma transcript_cons (s : TimeScale α) (op : Operation α) (ops : List (Operation α)) :
    s.transcript (op :: ops) =
      (op, (s.perform op).1) :: (s.perform op).2.transcript ops := rfl

omit [Measure α] in
/-- The steps of a run without some that are idle: questions, and edits that failed. -/
inductive Thinned : List (Operation α × Reply α) → List (Operation α × Reply α) → Prop
  | nil : Thinned [] []
  | keep {steps kept : List (Operation α × Reply α)} (step : Operation α × Reply α)
      (h : Thinned steps kept) : Thinned (step :: steps) (step :: kept)
  | leave {steps kept : List (Operation α × Reply α)} {step : Operation α × Reply α}
      (idle : step.2.isDone = false) (h : Thinned steps kept) : Thinned (step :: steps) kept

omit [Measure α] in
lemma thinned_filter (steps : List (Operation α × Reply α)) :
    Thinned steps (steps.filter (·.2.isDone)) := by
  induction steps with
  | nil => exact .nil
  | cons step steps ih =>
    rw [List.filter_cons]
    split_ifs with hstep
    · exact .keep step ih
    · exact .leave (Bool.not_eq_true _ ▸ hstep) ih

/-- A run without idle steps, on a scale with the same contents. The contents have to be contiguous
at every step, or else an answer could be up to the answers before it. -/
lemma Thinned.run_eq {ops : List (Operation α)} {steps : List (Operation α × Reply α)}
    (hsteps : Thinned (s.transcript ops) steps) (h : s.SameContents s')
    (hs : ∀ ops, ScaleLeaf.Contiguous (s.run ops).2.leaves) :
    (s'.run (steps.map Prod.fst)).1 = steps.map Prod.snd ∧
      (s.run ops).2.SameContents (s'.run (steps.map Prod.fst)).2 := by
  induction ops generalizing s s' steps with
  | nil =>
    cases hsteps
    exact ⟨rfl, h⟩
  | cons op ops ih =>
    have htail (ops : List (Operation α)) :
        ScaleLeaf.Contiguous ((s.perform op).2.run ops).2.leaves := hs (op :: ops)
    rw [transcript_cons] at hsteps
    cases hsteps with
    | @keep _ kept _ hkept =>
      obtain ⟨hreply, hcontents⟩ := h.perform (hs []) op
      obtain ⟨hreplies, hend⟩ := ih hkept hcontents htail
      exact ⟨congrArg₂ List.cons hreply.symm hreplies, hend⟩
    | leave hidle hkept => exact ih hkept ((sameContents_perform hidle).symm.trans h) htail

/-- To perform an edit is to carry it out in place. -/
lemma perform_edit_eq (s : TimeScale α) (e : Edit α) :
    s.perform (.edit e) = (.ofResult (e.inPlace s).1, (e.inPlace s).2) := by
  rw [e.inPlace_eq]
  unfold perform
  dsimp only
  cases e.apply s <;> rfl

lemma eq_of_inPlace_eq_error {e : Edit α} {cause : ScaleError}
    (h : e.inPlace s = (.error cause, s')) : s' = s := by
  rw [e.inPlace_eq] at h
  cases hresult : e.apply s with
  | ok made =>
    rw [hresult] at h
    cases h
  | error cause =>
    rw [hresult] at h
    cases h
    rfl

/-- Any of the questions and of the edits that failed, or all of them, can be left out of a run on a
built scale: the other steps get the replies that they got, and the scale ends with the same groups,
leaves, unit count and size. An edit that fails, be it carried out step by step, leaves the scale
and where its next search starts as they were. -/
theorem run_thinned {descriptors : List (ScaleDescriptor α)} {size : α} {built : TimeScale α}
    (h : build descriptors size = .ok built) (ops : List (Operation α)) :
    (∀ steps, Thinned (built.transcript ops) steps →
      (built.run (steps.map Prod.fst)).1 = steps.map Prod.snd ∧
        (built.run ops).2.SameContents (built.run (steps.map Prod.fst)).2) ∧
    Thinned (built.transcript ops) ((built.transcript ops).filter (·.2.isDone)) ∧
    (∀ (s : TimeScale α) (e : Edit α),
      s.perform (.edit e) = (.ofResult (e.inPlace s).1, (e.inPlace s).2)) ∧
    ∀ (s s' : TimeScale α) (e : Edit α) (cause : ScaleError),
      e.inPlace s = (.error cause, s') → s' = s := by
  refine ⟨fun steps hsteps => ?_, thinned_filter _, perform_edit_eq,
    fun s s' e cause => eq_of_inPlace_eq_error⟩
  exact hsteps.run_eq (.refl built) fun ops => (wellFormed_run h ops).contiguous

/-- A question and starts of which one is no time leave nothing behind. -/
theorem run_thinned_quarters :
    ∃ built, build quarters (Measure.ofInt 100) = .ok built ∧
      Thinned (built.transcript [.edit (.setTimes [.text "2024-02-01", .text "never"]),
          .ask (.index built.start), .edit (.setSize (Measure.ofInt 50))])
        [(.edit (.setSize (Measure.ofInt 50)), .done)] ∧
      (built.run [.edit (.setSize (Measure.ofInt 50))]).1 = [.done] ∧
      (Edit.setTimes [.text "2024-02-01", .text "never"]).inPlace built =
        (.error (.invalidTime 1 "never"), built) := by
  obtain ⟨built, h⟩ := exists_build_quarters
  have hfails : (Edit.setTimes [.text "2024-02-01", .text "never"]).apply built =
      .error (.invalidTime 1 "never") := by
    have hvalues : TimeValue.resolveAll 0 [.text "2024-02-01", .text "never"] =
        .error (.invalidTime 1 "never") := rfl
    exact congrArg (· >>= _) hvalues
  have hplace := (Edit.setTimes [.text "2024-02-01", .text "never"]).inPlace_eq built
  have hreply := perform_edit_eq built (.setTimes [.text "2024-02-01", .text "never"])
  rw [hfails] at hplace
  rw [hplace] at hreply
  have hthinned : Thinned (built.transcript
      [.edit (.setTimes [.text "2024-02-01", .text "never"]), .ask (.index built.start),
        .edit (.setSize (Measure.ofInt 50))])
      [(.edit (.setSize (Measure.ofInt 50)), .done)] := by
    rw [transcript_cons, hreply]
    exact .leave rfl (.leave rfl (.keep _ .nil))
  exact ⟨built, h, hthinned, ((run_thinned h _).1 _ hthinned).1, hplace⟩

end TimeScale

end Timeline
