import LazyFrame.Proofs.Faults.Reading
import LazyFrame.Proofs.Scope.Session
import LazyFrame.Service.Request

/-!
# Frame requests that go wrong

From the body of a frame request to the text of the frame it describes, everything that goes wrong
is a mistake of the caller, with one exception (`FrameRequest.client_faults_iff`): a step whose kind
has no text (`FrameRequest.Mute`). The complaint about it is made out of that text, so making it
fails first, and the fault that comes of this has no status.
-/

namespace LazyFrame

open Attempt (Ends EndsWell)

namespace FrameRequest

/-- The SQL text of the frame that the body of a request describes, over a catalog that takes
identities from `next` on. -/
def sql (most : Number) (c : Catalog) (next : Nat) (body : Value) : Attempt String := do
  let request ← parse most body
  request.frame.sql c next

/-- Reading a request comes to a step whose kind has no text: everything that is looked at before
the frame is in order, and the frame is mute. -/
inductive Mute (most : Number) : Value → Prop where
  | frame {fields : List (String × Value)} {url? : Option String} {action : Action}
    {count? : Option Number} (hurl : urlOf (Fields.get fields "dbUrl") = .ok url?)
    (haction : Action.ofValue (Fields.get fields "action") = .ok action)
    (hcount : countOf most (Fields.get fields "n") = .ok count?)
    (h : FrameSpec.Mute (Fields.get fields "frame")) :
    Mute most (.record fields)

variable {most : Number} {c : Catalog} {next : Nat} {body : Value}

theorem urlOf_ends (v : Value) : EndsWell (fun _ => True) (urlOf v) := by
  unfold urlOf
  split
  · exact .ok trivial
  · exact .ok trivial
  · exact .error (.inl rfl)

theorem countOf_ends (most : Number) (v : Value) : EndsWell (fun _ => True) (countOf most v) := by
  unfold countOf
  split
  · exact .ok trivial
  · exact .ite (fun _ => .ok trivial) fun _ => .error (.inl rfl)
  · exact .error (.inl rfl)

theorem action_ends (v : Value) : EndsWell (fun _ => True) (Action.ofValue v) := by
  unfold Action.ofValue
  dsimp only
  split
  · exact .ok trivial
  · exact .error (.inl rfl)

/-- A request is read into a simple description, or it is not read by a mistake of the caller or
because it is mute. -/
theorem parse_ends (most : Number) (body : Value) :
    Ends (fun e => e.IsClient ∨ e = .noText ∧
      Mute most body) (fun request => request.frame.IsSimple) (parse most body) := by
  unfold parse
  split
  next fields =>
    cases hurl : urlOf (Fields.get fields "dbUrl") with
    | error e => exact .error (.inl ((urlOf_ends _).of_error hurl))
    | ok url? =>
      cases haction : Action.ofValue (Fields.get fields "action") with
      | error e => exact .error (.inl ((action_ends _).of_error haction))
      | ok action =>
        cases hcount : countOf most (Fields.get fields "n") with
        | error e => exact .error (.inl ((countOf_ends most _).of_error hcount))
        | ok count? =>
          refine Ends.bind ((Spec.readsWell (Fields.get fields "frame")).2.mono
            (fun e he => he.imp_right fun hmute => ?_) fun _ h => h) fun frame hframe => .ok hframe
          exact ⟨hmute.1, .frame hurl haction hcount hmute.2⟩
  next => exact .error (.inl (.inl rfl))

/-- A mute request fails without a status. -/
theorem Mute.sql (h : Mute most body) (c : Catalog) (next : Nat) :
    FrameRequest.sql most c next body = .error .noText := by
  cases h with
  | frame hurl haction hcount h =>
    have hparse := h.parse
    simp only [FrameRequest.sql, parse, hurl, haction, hcount, hparse, Attempt.ok_bind,
      Attempt.error_bind]

/-- Over a catalog whose columns have texts for names, all that goes wrong with a request is a
mistake of the caller, answered as 400 or 404, exactly if the request is not mute. -/
theorem client_faults_iff (hc : c.NamesAreTexts) (most : Number) (next : Nat) (body : Value) :
    (∀ e, FrameRequest.sql most c next body = .error e → e.status? = some 400 ∨
      e.status? = some 404) ↔ ¬Mute most body := by
  constructor
  · intro hclient hmute
    rcases hclient _ (hmute.sql c next) with h | h
    · cases h
    · cases h
  · intro hmute e he
    have hends : Ends (fun e => e.IsClient ∨ e = .noText ∧ Mute most body) (fun _ => True)
        (FrameRequest.sql most c next body) :=
      (parse_ends most body).bind fun request hsimple =>
        Ends.orMute (FrameSpec.sql_ends hc hsimple next)
    rcases hends.of_error he with hclient | ⟨_, h⟩
    · exact hclient
    · exact absurd h hmute

/-- A frame with one step, whose kind is given as a record with a text of its own. -/
def muteBody : Value :=
  .record [("frame", .record [("table", .text "tracks"),
    ("steps", .list [.record [("op", .record [("toString", .number 1)])]])])]

theorem mute_muteBody : Mute most muteBody := by
  have hstep : StepSpec.Mute (.record [("op", .record [("toString", .number 1)])]) := .own rfl
  have hbefore : ∀ s ∈ ([] : List Value), ∃ spec, StepSpec.parse s = .ok spec := by
    intro s hs
    cases hs
  have hframe : FrameSpec.Mute (Fields.get [("frame", .record [("table", .text "tracks"),
      ("steps", .list [.record [("op", .record [("toString", .number 1)])]])])] "frame") :=
    .step rfl rfl hbefore hstep
  exact .frame rfl rfl rfl hframe

/-- The unknown kind of a step is not complained about as a mistake of the caller when it has no
text. -/
theorem client_faults_muteBody : ∃ e, FrameRequest.sql 1000 Catalog.music 2 muteBody = .error e ∧
    ¬(e.status? = some 400 ∨ e.status? = some 404) ∧ e.statusCode = 500 := by
  refine ⟨.noText, mute_muteBody.sql _ _, fun h => ?_, rfl⟩
  rcases h with h | h
  · cases h
  · cases h

/-- A frame of a table that is not there. -/
def nowhereBody : Value := .record [("frame", .record [("table", .text "nowhere")])]

/-- A table that is not there is complained about. A step whose kind has no text is not, for there
the complaint fails. -/
theorem client_faults_iff_music : Catalog.music.NamesAreTexts ∧
    (∀ e, FrameRequest.sql 1000 Catalog.music 2 nowhereBody = .error e → e.status? = some 400 ∨
      e.status? = some 404) ∧
    ¬Mute 1000 nowhereBody ∧
    ¬∀ e, FrameRequest.sql 1000 Catalog.music 2 muteBody = .error e → e.status? = some 400 ∨
    e.status? = some 404 := by
  have hc : Catalog.music.NamesAreTexts := by
    intro t ht
    rcases List.mem_cons.mp ht with rfl | ht
    · rfl
    · rw [List.mem_singleton.mp ht]
      rfl
  have hframe : FrameSpec.parse (.record [("table", .text "nowhere")]) =
      .ok (.mk "nowhere" []) := by
    have htable : Spec.name? (Fields.get [("table", .text "nowhere")] "table") =
        some "nowhere" := rfl
    have hsteps : Fields.get [("table", .text "nowhere")] "steps" = .missing := rfl
    simp only [FrameSpec.parse, htable, hsteps, Attempt.mapM_attach]
    rfl
  have hread : parse 1000 nowhereBody = .ok ⟨none, .mk "nowhere" [], .sql, none⟩ := by
    show (FrameSpec.parse (.record [("table", .text "nowhere")]) >>= fun frame =>
      Except.ok (FrameRequest.mk none frame .sql none)) = _
    rw [hframe]
    rfl
  have hnowhere : FrameRequest.sql 1000 Catalog.music 2 nowhereBody =
      .error (.unknownTable "nowhere") := by
    rw [FrameRequest.sql, hread]
    rfl
  have hclient : ∀ e, FrameRequest.sql 1000 Catalog.music 2 nowhereBody = .error e →
      e.status? = some 400 ∨ e.status? = some 404 := by
    intro e he
    rw [hnowhere] at he
    cases he
    exact .inr rfl
  refine ⟨hc, hclient, (client_faults_iff hc 1000 2 nowhereBody).mp hclient, fun h => ?_⟩
  exact (client_faults_iff hc 1000 2 muteBody).mp h mute_muteBody

end FrameRequest

end LazyFrame
