import LazyFrame.Proofs.Postgres.Leases

/-!
# Tasks side by side over one pool

Any number of tasks are under way over one pool, and any of those that are not over may go on next
(`Run`). Nothing is assumed about the answers but that a pool hands out clients nobody has. `holder`
says who has a client after the exchanges so far.

Each task sees only its own exchanges, and goes through them as it does alone (`Run.reaches`). What
it takes itself to have is what it has (`Run.holder_iff`): a step of another task neither takes its
client away nor gives it one. So every client is used and given back by the task that has it, and a
task that goes its course gives its client back at the end. This fails for a run exactly if some
reset is refused by a value without a text (`Run.returned_iff`).
-/

namespace LazyFrame.Pool

/-! ## Runs -/

/-- An exchange of one of several calls. -/
structure Event where
  call : Nat
  exchange : Exchange interface

/-- A call: its task, and what is left of it. -/
structure Call where
  task : Task
  rest : Dialogue interface (Attempt task.Result)

/-- A call at its start. -/
def Call.ofTask (t : Task) : Call := ⟨t, t.dialogue⟩

/-- The exchanges of a call. -/
def own (events : List Event) (i : Nat) : List (Exchange interface) :=
  (events.filter (·.call == i)).map (·.exchange)

/-- Who has a client after an event. -/
def passed (client : Nat) (who : Option Nat) (e : Event) : Option Nat :=
  if obtained? e.exchange = some client then some e.call
  else if given? e.exchange = some client then none
  else who

/-- The call that has a client after some events. -/
def holder (events : List Event) (client : Nat) : Option Nat := events.foldl (passed client) none

/-- Calls in turns over one pool, which hands out only clients that no call has. -/
inductive Run (tasks : List Task) : List Event → List Call → Prop where
  | start : Run tasks [] (tasks.map .ofTask)
  | exchange {events : List Event} {calls : List Call} (h : Run tasks events calls) {i : Nat}
    {t : Task} {request : Request} {next : Answer request → Dialogue interface (Attempt t.Result)}
    (hcall : calls[i]? = some ⟨t, .ask request next⟩) (answer : Answer request)
    (hfree : ∀ client, obtained? ⟨request, answer⟩ = some client → holder events client = none) :
    Run tasks (events ++ [⟨i, ⟨request, answer⟩⟩]) (calls.set i ⟨t, next answer⟩)

/-! ## One more event -/

variable {tasks : List Task} {events : List Event} {calls : List Call}

/-- What a call does next comes last among its own exchanges. -/
theorem own_concat_self (events : List Event) (i : Nat) (e : Exchange interface) :
    own (events ++ [⟨i, e⟩]) i = own events i ++ [e] := by
  simp [own]

/-- What another call does next is none of its own. -/
theorem own_concat_of_ne (events : List Event) {i j : Nat} (h : i ≠ j) (e : Exchange interface) :
    own (events ++ [⟨i, e⟩]) j = own events j := by
  simp [own, h]

/-- An event is among the exchanges of its call. -/
theorem mem_own {e : Event} (he : e ∈ events) : e.exchange ∈ own events e.call :=
  List.mem_map.mpr ⟨e, List.mem_filter.mpr ⟨he, beq_self_eq_true _⟩, rfl⟩

/-- What a call has done stands among the events. -/
theorem exists_event_of_mem_own {i : Nat} {e : Exchange interface} (he : e ∈ own events i) :
    ∃ event ∈ events, event.exchange = e := by
  obtain ⟨event, hevent, rfl⟩ := List.mem_map.mp he
  exact ⟨event, (List.mem_filter.mp hevent).1, rfl⟩

/-- Who has a client after one more event is decided by that event. -/
theorem holder_concat (events : List Event) (e : Event) (client : Nat) :
    holder (events ++ [e]) client = passed client (holder events client) e := by
  rw [holder, List.foldl_concat, holder]

/-- What a call holds after one more exchange is decided by that exchange. -/
theorem held_concat (transcript : List (Exchange interface)) (e : Exchange interface) :
    held (transcript ++ [e]) = after (held transcript) e := by
  rw [held, List.foldl_concat, held]

/-- An exchange hands out a client, takes one back, or neither. -/
theorem exchange_cases (e : Exchange interface) :
    (∃ client, obtained? e = some client ∧ given? e = none) ∨
    (∃ client, given? e = some client ∧ obtained? e = none) ∨
      obtained? e = none ∧ given? e = none := by
  obtain ⟨request, answer⟩ := e
  cases request with
  | connect =>
    cases answer with
    | error refusal => exact .inr (.inr ⟨rfl, rfl⟩)
    | ok client => exact .inl ⟨client, rfl, rfl⟩
  | release client => exact .inr (.inl ⟨client, rfl, rfl⟩)
  | query | log | now => exact .inr (.inr ⟨rfl, rfl⟩)

namespace Fits

variable {held? : Option Nat} {e : Exchange interface} {client : Nat}

/-- Who obtains a client had none before. -/
theorem obtained (h : Fits held? e.request) (hobtained : obtained? e = some client) :
    held? = none := by
  obtain ⟨request, answer⟩ := e
  cases request with
  | connect => exact h
  | release | query | log | now => cases hobtained

/-- Who gives a client back had that one. -/
theorem given (h : Fits held? e.request) (hgiven : given? e = some client) :
    held? = some client := by
  obtain ⟨request, answer⟩ := e
  cases request with
  | release client' =>
    cases hgiven
    exact h
  | connect | query | log | now => cases hgiven

/-- Who uses a client has that one. -/
theorem used (h : Fits held? e.request) (hused : used? e = some client) : held? = some client := by
  obtain ⟨request, answer⟩ := e
  cases request with
  | query client? statement parameters positional =>
    cases hused
    exact h
  | connect | release | log | now => cases hused

end Fits

section

variable {who held? : Option Nat} {e : Exchange interface} {client i j : Nat}

/-- After its own exchange a call has what it takes itself to have, if it was so before. -/
theorem passed_self_iff (hfits : Fits held? e.request) (h : who = some j ↔ held? = some client) :
    passed client who ⟨j, e⟩ = some j ↔ after held? e = some client := by
  rw [passed, after]
  rcases exchange_cases e with ⟨c, hobtained, hgiven⟩ | ⟨c, hgiven, hobtained⟩ | ⟨hobtained, hgiven⟩
  · have hnone : ¬who = some j := fun hwho => by
      have hclient := h.mp hwho
      rw [hfits.obtained hobtained] at hclient
      cases hclient
    by_cases hc : c = client
    · simp [hobtained, hgiven, hc]
    · simp [hobtained, hgiven, hc, hnone]
  · have hheld := hfits.given hgiven
    by_cases hc : c = client
    · simp [hobtained, hgiven, hc]
    · simp [hobtained, hgiven, hc, h, hheld]
  · simp [hobtained, hgiven, h]

/-- The exchange of another call leaves a call what it has. -/
theorem passed_iff_of_ne (hij : j ≠ i) (hfree : obtained? e = some client → who = none)
    (hgiven : given? e = some client → who = some j) : passed client who ⟨j, e⟩ = some i ↔
    who = some i := by
  rw [passed]
  split
  next hobtained => simp [hfree hobtained, hij]
  next =>
    split
    next hback => simp [hgiven hback, hij]
    next => rfl

end

/-! ## What every run keeps -/

/-- Each call has come by its own exchanges to what is left of it. -/
theorem Run.reaches (h : Run tasks events calls) {i : Nat} {c : Call} (hcall : calls[i]? = some c) :
    c.task.dialogue.Reaches (own events i) c.rest := by
  induction h generalizing i c with
  | start =>
    rw [List.getElem?_map] at hcall
    obtain ⟨t, -, rfl⟩ := Option.map_eq_some_iff.mp hcall
    exact .start _
  | @exchange events calls h j t request next hnext answer hfree ih =>
    by_cases hij : j = i
    · subst hij
      have hlt : j < calls.length := (List.getElem?_eq_some_iff.mp hnext).1
      rw [List.getElem?_set_self hlt] at hcall
      cases hcall
      rw [own_concat_self]
      exact (ih hnext).concat answer
    · rw [List.getElem?_set_ne hij] at hcall
      rw [own_concat_of_ne _ hij]
      exact ih hcall

/-- What a call asks for fits the client it has. -/
theorem Run.fits (h : Run tasks events calls) {i : Nat} {t : Task} {request : Request}
    {next : Answer request → Dialogue interface (Attempt t.Result)} (hcall : calls[i]? =
      some ⟨t, .ask request next⟩) :
    Fits (held (own events i)) request :=
  (t.tidy.reaches (h.reaches hcall)).1

/-- The call that has a client is the one that takes itself to have it. -/
theorem Run.holder_iff (h : Run tasks events calls) (i client : Nat) :
    holder events client = some i ↔ held (own events i) = some client := by
  induction h generalizing i client with
  | start =>
    constructor
    · intro h
      cases h
    · intro h
      cases h
  | @exchange events calls h j t request next hnext answer hfree ih =>
    have hfits := h.fits hnext
    rw [holder_concat]
    by_cases hij : j = i
    · subst hij
      rw [own_concat_self, held_concat]
      exact passed_self_iff hfits (ih j client)
    · rw [own_concat_of_ne _ hij, ← ih i client]
      refine passed_iff_of_ne hij (hfree client) fun hgiven => ?_
      exact (ih j client).mpr (Fits.given hfits hgiven)

/-- No event belongs to a call that there is not. -/
theorem Run.exists_call (h : Run tasks events calls) {e : Event} (he : e ∈ events) :
    ∃ c, calls[e.call]? = some c := by
  have hlt : e.call < calls.length := by
    induction h with
    | start => cases he
    | exchange h hnext answer hfree ih =>
      rw [List.length_set]
      rcases List.mem_append.mp he with he | he
      · exact ih he
      · rw [List.mem_singleton.mp he]
        exact (List.getElem?_eq_some_iff.mp hnext).1
  exact ⟨_, List.getElem?_eq_getElem hlt⟩

/-- Whatever runs on a client or gives it back is done by the call that has it. -/
theorem Run.used (h : Run tasks events calls) {before behind : List Event} {e : Event}
    {client : Nat} (hsplit : events = before ++ e :: behind)
    (hclient : used? e.exchange = some client ∨ given? e.exchange = some client) :
    holder before client = some e.call := by
  induction h generalizing behind with
  | start => cases (List.append_eq_nil_iff.mp hsplit.symm).2
  | @exchange events calls h j t request next hnext answer hfree ih =>
    rcases List.eq_nil_or_concat behind with rfl | ⟨behind, last, rfl⟩
    · obtain ⟨rfl, hlast⟩ := List.append_inj' hsplit rfl
      cases hlast
      have hfits := h.fits hnext
      refine (h.holder_iff j client).mpr ?_
      rcases hclient with hused | hgiven
      · exact Fits.used hfits hused
      · exact Fits.given hfits hgiven
    · rw [List.concat_eq_append, ← List.cons_append, ← List.append_assoc] at hsplit
      exact ih (List.append_inj' hsplit rfl).1

/-! ## Clients that come back -/

/-- What is to be said about clients: queries run on clients that their call has, and only such are
given back; a call that is over has gone its course, and has no client. -/
structure Returned (events : List Event) (calls : List Call) : Prop where
  used : ∀ before e behind client, events = before ++ e :: behind →
    used? e.exchange = some client ∨ given? e.exchange = some client →
    holder before client = some e.call
  course : ∀ i t result, calls[i]? = some ⟨t, .done result⟩ → Course t (own events i) result
  free : ∀ i t result, calls[i]? = some ⟨t, .done result⟩ → ∀ client, holder events client ≠ some i

/-- Every dialogue with a pool can be brought to an end. -/
theorem exists_goes {α : Type} (d : Dialogue interface α) :
    ∃ transcript result, d.Goes transcript result := by
  induction d with
  | done result => exact ⟨[], result, .done result⟩
  | ask request next ih =>
    have hanswer : Nonempty (Answer request) := by
      cases request with
      | connect => exact ⟨(.ok 0 : Attempt Nat)⟩
      | release | log => exact ⟨()⟩
      | query => exact ⟨(.ok .null : Attempt Value)⟩
      | now => exact ⟨(0 : Number)⟩
    obtain ⟨answer⟩ := hanswer
    obtain ⟨transcript, result, h⟩ := ih answer
    exact ⟨_, result, .ask answer h⟩

/-- A call with a mute refusal of its reset is over, and has not gone its course. -/
theorem Run.breaks_off (h : Run tasks events calls) {e : Event} (he : e ∈ events) {fault : Fault}
    (hmute : IsMute e.exchange fault) :
    ∃ t result, calls[e.call]? = some ⟨t, .done result⟩ ∧ ¬Course t (own events e.call) result := by
  obtain ⟨⟨t, rest⟩, hcall⟩ := h.exists_call he
  obtain ⟨more, result, hmore⟩ := exists_goes rest
  have hown := mem_own he
  rcases t.goes ((h.reaches hcall).goes hmore) with hcourse | ⟨front, last, _, hfront, -, heq, rfl⟩
  · exact absurd hmute (hcourse.not_mute (List.mem_append_left _ hown))
  · rcases List.eq_nil_or_concat more with rfl | ⟨more, final, rfl⟩
    · cases hmore
      exact ⟨t, _, hcall, fun hcourse => hcourse.not_mute hown hmute⟩
    · -- the mute refusal would stand in front of the end
      rw [List.concat_eq_append, ← List.append_assoc] at heq
      obtain ⟨rfl, -⟩ := List.append_inj' heq rfl
      exact absurd hmute (hfront _ (List.mem_append_left _ hown) _)

/-- In every run over a pool the clients come back clean and once unless a reset is refused by a
value without a text. -/
theorem Run.returned_iff (h : Run tasks events calls) :
    Returned events calls ↔ ∀ e ∈ events, ∀ fault, ¬IsMute e.exchange fault := by
  constructor
  · intro hreturned e he fault hmute
    obtain ⟨t, result, hcall, hcourse⟩ := h.breaks_off he hmute
    exact hcourse (hreturned.course _ _ _ hcall)
  · intro hmute
    have hcourse : ∀ i t result, calls[i]? = some ⟨t, .done result⟩ →
        Course t (own events i) result := by
      intro i t result hcall
      have hgoes := (h.reaches hcall).goes (.done result)
      rw [List.append_nil] at hgoes
      rcases t.goes hgoes with hcourse | ⟨front, last, fault, -, hlast, heq, -⟩
      · exact hcourse
      · have hmem : last ∈ own events i :=
          heq ▸ List.mem_append_right _ (List.mem_singleton_self last)
        obtain ⟨e, he, rfl⟩ := exists_event_of_mem_own hmem
        exact absurd hlast (hmute e he fault)
    refine ⟨fun before e behind client => h.used, hcourse,
      fun i t result hcall client hholder => ?_⟩
    have hheld := (h.holder_iff i client).mp hholder
    rw [(hcourse i t result hcall).held_eq_none] at hheld
    cases hheld

/-! ## Two runs -/

/-- A statement and a trivial query that cross: the query is refused, and so is the reset behind the
statement. -/
def crossed : List Event :=
  [⟨0, announced "SELECT 1"⟩, ⟨0, asked (.ok 0)⟩, ⟨1, asked (.ok 1)⟩,
    ⟨0, ran 0 (setStatement 3000) false (.ok .null)⟩,
    ⟨1, ran 1 "SELECT 1" false (.error (.plain "gone"))⟩,
      ⟨0, ran 0 "SELECT 1" true (.ok (.list []))⟩, ⟨1, returned 1⟩,
    ⟨0, ran 0 resetStatement false (.error (.plain "lost"))⟩, ⟨0, complained (.text "lost")⟩,
      ⟨0, returned 0⟩]

theorem run_crossed :
    Run [.execute 3000 "SELECT 1", .ping] crossed
      [⟨.execute 3000 "SELECT 1", .done (.ok (.list []))⟩,
        ⟨.ping, .done (.error (.plain "gone"))⟩] := by
  have h0 : Run [.execute 3000 "SELECT 1", .ping] [] _ := .start
  have h1 := h0.exchange (i := 0) rfl () nofun
  have h2 := h1.exchange (i := 0) rfl (.ok 0 : Attempt Nat) fun _ _ => rfl
  have h3 := h2.exchange (i := 1) rfl (.ok 1 : Attempt Nat) (by rintro _ ⟨⟩; rfl)
  have h4 := h3.exchange (i := 0) rfl (.ok .null : Attempt Value) nofun
  have h5 := h4.exchange (i := 1) rfl (.error (.plain "gone") : Attempt Value) nofun
  have h6 := h5.exchange (i := 0) rfl (.ok (.list []) : Attempt Value) nofun
  have h7 := h6.exchange (i := 1) rfl () nofun
  have h8 := h7.exchange (i := 0) rfl (.error (.plain "lost") : Attempt Value) nofun
  have h9 := h8.exchange (i := 0) rfl () nofun
  exact h9.exchange (i := 0) rfl () nofun

/-- Every client that a call has obtained is returned, and it is never in two hands. -/
theorem Run.returned_crossed :
    let calls : List Call :=
      [⟨.execute 3000 "SELECT 1", .done (.ok (.list []))⟩, ⟨.ping, .done (.error (.plain "gone"))⟩]
    Run [.execute 3000 "SELECT 1", .ping] crossed calls ∧
    (∀ e ∈ crossed, ∀ fault, ¬IsMute e.exchange fault) ∧
      Returned crossed calls := by
  intro calls
  have hstatement : Course (.execute 3000 "SELECT 1") (own crossed 0) (.ok (.list [])) :=
    .executed 3000 "SELECT 1" 0 .null (.ok (.list [])) (.logged rfl)
  have hping : Course .ping (own crossed 1) (.error (.plain "gone")) :=
    .pinged 1 (.error (.plain "gone"))
  have hmute : ∀ e ∈ crossed, ∀ fault, ¬IsMute e.exchange fault := by
    intro e he fault
    have hown := mem_own he
    have hcalls : ∀ i ∈ crossed.map (·.call), i = 0 ∨ i = 1 := by decide
    rcases hcalls _ (List.mem_map_of_mem he) with h | h
    · exact hstatement.not_mute (h ▸ hown)
    · exact hping.not_mute (h ▸ hown)
  exact ⟨run_crossed, hmute, run_crossed.returned_iff.mpr hmute⟩

/-- A reset that is refused by a value without a text. -/
def broken : List Event :=
  [⟨0, announced "SELECT 1"⟩, ⟨0, asked (.ok 0)⟩,
    ⟨0, ran 0 (setStatement 3000) false (.ok (.list []))⟩,
    ⟨0, ran 0 "SELECT 1" true (.ok (.list [.list [.bool true]]))⟩,
    ⟨0, ran 0 resetStatement false (.error (.thrown (.record [("toString", .bool true)])))⟩]

/-- The statement has its rows, but the call ends with the fault of the reset, and keeps its
client. -/
theorem Run.not_returned_broken :
    let calls : List Call := [⟨.execute 3000 "SELECT 1", .done (.error .noText)⟩]
    Run [.execute 3000 "SELECT 1"] broken calls ∧ holder broken 0 = some 0 ∧
    ¬Returned broken calls := by
  intro calls
  have h0 : Run [.execute 3000 "SELECT 1"] [] _ := .start
  have h1 := h0.exchange (i := 0) rfl () nofun
  have h2 := h1.exchange (i := 0) rfl (.ok 0 : Attempt Nat) fun _ _ => rfl
  have h3 := h2.exchange (i := 0) rfl (.ok (.list []) : Attempt Value) nofun
  have h4 := h3.exchange (i := 0) rfl (.ok (.list [.list [.bool true]]) : Attempt Value) nofun
  have h5 :=
    h4.exchange (i := 0) rfl (.error (.thrown (.record [("toString", .bool true)])) :
      Attempt Value) nofun
  have hrun : Run [.execute 3000 "SELECT 1"] broken calls := h5
  exact ⟨hrun, rfl, fun hreturned => hreturned.free 0 _ _ rfl 0 rfl⟩

end LazyFrame.Pool
