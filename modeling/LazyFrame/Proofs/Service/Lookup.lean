import LazyFrame.Proofs.Service.Errand

/-!
# How a call comes by a catalog

A good catalog that is kept is taken. Otherwise a connection is made and a catalog loaded over it,
which is kept if there is one (`Service.Obtains`). An answer consists of three parts: looks at the
clock, the way to the catalog, and a reply for which no connection is made
(`Service.goes_answer_of_errand`).
-/

namespace LazyFrame

namespace Service

/-- A catalog of the URL is kept that is still good. -/
def HasGood (settings : Settings) (url : String) (now : Number) (catalogs : Catalogs) : Prop :=
  ∃ s, (catalogs.get (some url)).1 = some s ∧ isGood settings now s = true

/-- The ways to come by the catalog of a URL. Looking for a kept one renews it, good or not. -/
inductive Obtains (settings : Settings) (url : String) (now : Number) (before : Catalogs) :
    List (Exchange Outside.interface) → Attempt Catalog → Catalogs → Prop where
  | kept {s : Stamped} (hfound : (before.get (some url)).1 = some s)
    (hgood : isGood settings now s = true) :
    Obtains settings url now before [] (.ok s.catalog) (before.get (some url)).2
  | refused {fault : Fault} (hnone : ¬HasGood settings url now before) :
    Obtains settings url now before [⟨.connect url, .error fault⟩] (.error fault)
      (before.get (some url)).2
  | failed {connection : Connection} {transcript : List (Exchange Outside.interface)}
    {fault : Fault} (hnone : ¬HasGood settings url now before)
    (hload : (Catalog.load connection none 0).run.Goes transcript (.error fault)) :
    Obtains settings url now before (⟨.connect url, .ok connection⟩ :: transcript) (.error fault)
      (before.get (some url)).2
  | loaded {connection : Connection} {transcript : List (Exchange Outside.interface)} {c : Catalog}
    (hnone : ¬HasGood settings url now before)
    (hload : (Catalog.load connection none 0).run.Goes transcript (.ok c)) :
    Obtains settings url now before (⟨.connect url, .ok connection⟩ :: transcript) (.ok c)
      ((before.get (some url)).2.set (some url) (some ⟨now, c⟩))

variable {settings : Settings} {url : String} {now : Number} {before after : Catalogs}
  {transcript : List (Exchange Outside.interface)}

theorem obtains_of_goes {found : Attempt Catalog}
    (h : (catalogOf settings url).Goes before transcript found after) :
    ∃ now rest, transcript = ⟨.now, now⟩ :: rest ∧
      Obtains settings url now before rest found after := by
  obtain ⟨time, clock, rest, rfl, hclock, hfind⟩ := Serving.goes_ofJob_bind_iff.mp h
  obtain ⟨now, rfl, rfl⟩ := Asking.goes_request_iff.mp hclock
  refine ⟨now, rest, rfl, ?_⟩
  rw [Serving.ofAttempt_ok_bind, Serving.goes_find_bind_iff] at hfind
  -- a kept catalog that is too old counts as none
  cases hkept : (before.get (some url)).1.filter (isGood settings now) with
  | some s =>
    obtain ⟨hfound, hgood⟩ := Option.filter_eq_some_iff.mp hkept
    rw [hkept] at hfind
    obtain ⟨rfl, rfl, rfl⟩ := Serving.goes_ofAttempt_iff.mp hfind
    exact .kept hfound hgood
  | none =>
    have hnone : ¬HasGood settings url now before := by
      rintro ⟨s, hfound, hgood⟩
      rw [hfound, Option.filter_some, if_pos hgood] at hkept
      cases hkept
    rw [hkept] at hfind
    obtain ⟨connected, _, behind, rfl, hconnect, hbehind⟩ := Serving.goes_ofJob_bind_iff.mp hfind
    obtain ⟨_, rfl, rfl⟩ := Asking.goes_request_iff.mp hconnect
    -- the connection is refused, or the load fails, or its catalog is kept
    cases connected with
    | error fault =>
      obtain ⟨rfl, rfl, rfl⟩ := Serving.goes_ofAttempt_iff.mp hbehind
      exact .refused hnone
    | ok connection =>
      rw [Serving.ofAttempt_ok_bind] at hbehind
      obtain ⟨loaded, load, last, rfl, hload, hlast⟩ := Serving.goes_ofJob_bind_iff.mp hbehind
      cases loaded with
      | error fault =>
        obtain ⟨rfl, rfl, rfl⟩ := Serving.goes_ofAttempt_iff.mp hlast
        rw [List.append_nil]
        exact .failed hnone hload
      | ok c =>
        rw [Serving.ofAttempt_ok_bind, Serving.goes_keep_bind_iff] at hlast
        obtain ⟨rfl, rfl, rfl⟩ := Serving.goes_ofAttempt_iff.mp hlast
        rw [List.append_nil]
        exact .loaded hnone hload

/-! ## Answers -/

/-- What comes of an outcome. -/
def settled : Attempt Reply → Job Reply
  | .ok reply => pure reply
  | .error fault => replyTo fault

/-- The reply that is made of the catalog that was found, or of the fault there was. -/
def replied (respond : Catalog → Job Reply) (found : Attempt Catalog) : Job Reply :=
  Asking.outcome (Asking.ofAttempt found >>= respond) >>= settled

theorem goes_replied_iff {respond : Catalog → Job Reply} {found : Attempt Catalog}
    {result : Attempt Reply} :
    (replied respond found).run.Goes transcript result ↔
    ∃ outcome first second, transcript = first ++ second ∧
      (Asking.ofAttempt found >>= respond : Job Reply).run.Goes first outcome ∧
        (settled outcome).run.Goes second result := by
  refine Asking.goes_bind_iff.trans ?_
  simp only [Asking.goes_outcome_iff]
  constructor
  · rintro ⟨_, first, second, htranscript, ⟨outcome, hfirst, rfl⟩, hsecond⟩
    exact ⟨outcome, first, second, htranscript, hfirst, hsecond⟩
  · rintro ⟨outcome, first, second, htranscript, hfirst, hsecond⟩
    exact ⟨_, first, second, htranscript, ⟨outcome, hfirst, rfl⟩, hsecond⟩

theorem isQuiet_settled (outcome : Attempt Reply) : (settled outcome).IsQuiet := by
  cases outcome with
  | ok reply => exact trivial
  | error fault => exact Asking.only_bind (Job.isQuiet_log ..) fun _ => trivial

theorem isQuiet_replied {respond : Catalog → Job Reply} (h : ∀ c, (respond c).IsQuiet)
    (found : Attempt Catalog) : (replied respond found).IsQuiet :=
  Asking.only_bind (Asking.only_outcome (Asking.only_bind (Asking.only_ofAttempt _) h))
    isQuiet_settled

/-- Whether there is a call or only something wrong with one, it is handled, and then what comes of
the outcome. -/
theorem goes_answered {call : Attempt Call} {result : Attempt Reply}
    (h : (answer settings call).Goes before transcript result after) :
    ∃ outcome first second, transcript = first ++ second ∧
      (Serving.ofAttempt call >>= handle settings).Goes before first outcome after ∧
        (settled outcome).run.Goes second result := by
  obtain ⟨_, between, first, second, rfl, hfirst, hsecond⟩ := Serving.goes_bind_iff.mp h
  obtain ⟨outcome, hhandle, rfl⟩ := Serving.goes_outcome_iff.mp hfirst
  have hsettled : (Serving.ofJob (settled outcome)).Goes between second result after := by
    cases outcome with
    | ok reply => exact hsecond
    | error fault => exact hsecond
  obtain ⟨hgoes, rfl⟩ := Serving.goes_ofJob_iff.mp hsettled
  exact ⟨outcome, first, second, rfl, hhandle, hgoes⟩

theorem goes_answer {call : Call} {result : Attempt Reply}
    (h : (answer settings (.ok call)).Goes before transcript result after) :
    ∃ outcome first second, transcript = first ++ second ∧
      (handle settings call).Goes before first outcome after ∧
      (settled outcome).run.Goes second result :=
  goes_answered h

/-- A call for a database looks at the clock, comes by the catalog and replies, and nothing else. -/
theorem goes_answer_of_errand {call : Call} {errand : Errand}
    (h : call.errand? settings = some errand) {result : Attempt Reply}
    (hgoes : (answer settings (.ok call)).Goes before transcript result after)
    (hclock : StandsAt now transcript) :
    ∃ clock lookup found rest, transcript = clock ++ (lookup ++ rest) ∧
      (∀ e ∈ clock, e.request = .now) ∧ Obtains settings errand.url now before lookup found after ∧
      (replied (errand.respond now) found).run.Goes rest result := by
  obtain ⟨outcome, handled, last, rfl, hhandle, hlast⟩ := goes_answer hgoes
  rw [handle_of_errand h] at hhandle
  obtain ⟨_, start, _, rfl, hstart, hhandle⟩ := Serving.goes_ofJob_bind_iff.mp hhandle
  obtain ⟨⟨started, rfl⟩, hnow⟩ := Call.goes_started hstart
  rw [Serving.ofAttempt_ok_bind] at hhandle
  obtain ⟨found, between, search, reply, rfl, hsearch, hreply⟩ := Serving.goes_bind_iff.mp hhandle
  obtain ⟨time, lookup, rfl, hobtains⟩ := obtains_of_goes hsearch
  obtain rfl : time = now := hclock time (by simp)
  rw [respond_started h hstart fun answer hmem => hclock answer (by simp [hmem])] at hreply
  -- what is done with the catalog is a job, and so is what is done without one
  have hjob :
      (Serving.ofJob (Asking.ofAttempt found >>= errand.respond time)).Goes between reply
        outcome after := by
    cases found with
    | ok c => exact hreply
    | error fault => exact hreply
  obtain ⟨hreplied, rfl⟩ := Serving.goes_ofJob_iff.mp hjob
  refine ⟨start ++ [⟨.now, time⟩], lookup, found, reply ++ last, by simp, ?_, hobtains,
    goes_replied_iff.mpr ⟨outcome, reply, last, rfl, hreplied, hlast⟩⟩
  intro e he
  rcases List.mem_append.mp he with he | he
  · exact hnow e he
  · rw [List.mem_singleton.mp he]

/-- A call without an errand leaves the catalogs alone and connects at most once. -/
theorem goes_answer_without_errand {call : Call} (h : call.errand? settings = none)
    {result : Attempt Reply}
    (hgoes : (answer settings (.ok call)).Goes before transcript result after) :
    after = before ∧ (connects transcript).length ≤ 1 := by
  obtain ⟨outcome, handled, last, rfl, hhandle, hlast⟩ := goes_answer hgoes
  obtain ⟨hafter, hconnects⟩ := handle_without_errand h hhandle
  rw [connects_append, connects_of_quiet ((isQuiet_settled outcome).goes hlast), List.append_nil]
  exact ⟨hafter, hconnects⟩

end Service

end LazyFrame
