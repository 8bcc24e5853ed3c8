import LazyFrame.Proofs.Recency
import LazyFrame.Proofs.Service.Freshness
import LazyFrame.Proofs.Service.Lookup

/-!
# Visits

A visit is a call as it went: what was exchanged over it while the clock stood, and its result.
Whether it loaded a catalog can be read off what was exchanged (`Visit.Loads`). A visit for a URL
goes in one of three ways (`Visit.Course`): it finds a good catalog and replies over it without any
connection, or it connects once and fails to load one, or it connects once, loads one and keeps it.
-/

namespace LazyFrame.Service

/-- A call with its time, what was exchanged over it, and its result. -/
structure Visit where
  call : Call
  time : Rat
  transcript : List (Exchange Outside.interface)
  result : Attempt Reply

namespace Visit

/-- The way a visit goes with the catalogs that are kept before and after it. The clock stands
during a visit. -/
def Goes (settings : Settings) (v : Visit) (before after : Catalogs) : Prop :=
  StandsAt (.finite v.time) v.transcript ∧
  (answer settings (.ok v.call)).Goes before v.transcript v.result after

/-- The URL whose catalog the visit is for, if it is for one. -/
def url? (settings : Settings) (v : Visit) : Option String := (v.call.errand? settings).map (·.url)

/-- The visit connected to a URL and loaded its catalog. -/
def Loads (settings : Settings) (v : Visit) (url : String) (c : Catalog) : Prop :=
  v.url? settings = some url ∧ ∃ front connection load rest,
    v.transcript = front ++ ⟨.connect url, .ok connection⟩ :: (load ++ rest) ∧
      (Catalog.load connection none 0).run.Goes load (.ok c)

/-- The visit connected, but has not loaded a catalog. -/
def Fails (settings : Settings) (v : Visit) : Prop :=
  connects v.transcript ≠ [] ∧ ∀ url c, ¬v.Loads settings url c

/-- Behind these exchanges the visit made its reply of a catalog. -/
def RepliesBehind (settings : Settings) (v : Visit) (front : List (Exchange Outside.interface))
    (c : Catalog) : Prop :=
  ∃ errand rest, v.call.errand? settings = some errand ∧ v.transcript = front ++ rest ∧
    (replied (errand.respond (.finite v.time)) (.ok c)).run.Goes rest v.result

/-- Having looked at the clock, the visit made its reply of a catalog. -/
def RepliesOverKept (settings : Settings) (v : Visit) (c : Catalog) : Prop :=
  ∃ clock, (∀ e ∈ clock, e.request = .now) ∧ v.RepliesBehind settings clock c

/-- Having looked at the clock and loaded a catalog, the visit made its reply of it. -/
def RepliesOverLoaded (settings : Settings) (v : Visit) (url : String) (c : Catalog) : Prop :=
  ∃ clock connection load, (∀ e ∈ clock, e.request = .now) ∧
    (Catalog.load connection none 0).run.Goes load (.ok c) ∧
      v.RepliesBehind settings (clock ++ ⟨.connect url, .ok connection⟩ :: load) c

variable {settings : Settings} {v : Visit} {url : String} {before after : Catalogs}

/-! ## Where the catalog was loaded -/

/-- A visit that makes one connection has loaded what was loaded over it. -/
theorem loads_iff {front tail : List (Exchange Outside.interface)} {connected : Attempt Connection}
    (hurl : v.url? settings = some url) (htranscript : v.transcript =
      front ++ ⟨.connect url, connected⟩ :: tail)
    (hfront : ∀ e ∈ front, e.request.IsQuiet) (htail : ∀ e ∈ tail, e.request.IsQuiet)
    (c : Catalog) :
    v.Loads settings url c ↔ ∃ connection load rest, connected = .ok connection ∧
    tail = load ++ rest ∧
      (Catalog.load connection none 0).run.Goes load (.ok c) := by
  constructor
  · rintro ⟨_, front', connection, load, rest, htranscript', hload⟩
    have hquiet : ∀ {part : List (Exchange Outside.interface)} {answer : Attempt Connection},
        (∀ e ∈ part, e.request.IsQuiet) →
        (⟨.connect url, answer⟩ : Exchange Outside.interface) ∉ part := by
      intro part answer h hmem
      cases h _ hmem
    obtain ⟨_, hexchange, rfl⟩ := (List.append_cons_inj_of_notMem (hquiet hfront) (hquiet htail)).mp
      (htranscript.symm.trans htranscript')
    cases hexchange
    exact ⟨connection, load, rest, rfl, rfl, hload⟩
  · rintro ⟨connection, load, rest, rfl, rfl, hload⟩
    exact ⟨hurl, front, connection, load, rest, htranscript, hload⟩

/-- What was loaded over the one connection is what that load came to. -/
theorem loads_iff_of_load {front load rest : List (Exchange Outside.interface)}
    {connection : Connection} {loaded : Attempt Catalog} (hurl : v.url? settings = some url)
    (htranscript : v.transcript = front ++ ⟨.connect url, .ok connection⟩ :: (load ++ rest))
    (hfront : ∀ e ∈ front, e.request.IsQuiet) (hrest : ∀ e ∈ rest, e.request.IsQuiet)
    (hload : (Catalog.load connection none 0).run.Goes load loaded) (c : Catalog) :
    v.Loads settings url c ↔ loaded = .ok c := by
  have htail := quiet_append ((Catalog.isQuiet_load connection none 0).goes hload) hrest
  rw [loads_iff hurl htranscript hfront htail]
  constructor
  · rintro ⟨connection', load', rest', hconnected, heq, hload'⟩
    cases hconnected
    exact (hload.unique hload' heq).2
  · rintro rfl
    exact ⟨connection, load, rest, rfl, rfl, hload⟩

theorem Loads.connects_ne_nil {c : Catalog} (h : v.Loads settings url c) :
    connects v.transcript ≠ [] := by
  obtain ⟨_, front, connection, load, rest, htranscript, _⟩ := h
  rw [htranscript, connects_append]
  exact List.append_ne_nil_of_right_ne_nil _ (List.cons_ne_nil _ _)

theorem fails_of_loads (hurl : v.url? settings = some url)
    (hconnects : connects v.transcript = [url]) (h : ∀ c, ¬v.Loads settings url c) :
    v.Fails settings := by
  refine ⟨fun hnil => ?_, fun url' c hload => ?_⟩
  · rw [hconnects] at hnil
    cases hnil
  · obtain rfl : url = url' := Option.some.inj (hurl.symm.trans hload.1)
    exact h c hload

/-! ## The three ways -/

/-- The way that a visit for a URL goes, and the catalogs afterwards. -/
inductive Course (settings : Settings) (url : String) (v : Visit) (before : Catalogs) :
    Catalogs → Prop where
  | kept {s : Stamped} (hfound : (before.get (some url)).1 = some s)
    (hgood : isGood settings (.finite v.time) s = true) (hconnects : connects v.transcript = [])
    (hreplies : v.RepliesOverKept settings s.catalog) :
    Course settings url v before (before.get (some url)).2
  | failed (hnone : ¬HasGood settings url (.finite v.time) before)
    (hconnects : connects v.transcript = [url]) (hfails : v.Fails settings) :
    Course settings url v before (before.get (some url)).2
  | loaded {c : Catalog} (hnone : ¬HasGood settings url (.finite v.time) before)
    (hconnects : connects v.transcript = [url]) (hloads : ∀ c', v.Loads settings url c' ↔ c' = c)
    (hreplies : v.RepliesOverLoaded settings url c) :
    Course settings url v before
      ((before.get (some url)).2.set (some url) (some ⟨.finite v.time, c⟩))

theorem course_of_goes (h : v.Goes settings before after) (hurl : v.url? settings = some url) :
    Course settings url v before after := by
  obtain ⟨errand, herrand, rfl⟩ := Option.map_eq_some_iff.mp hurl
  obtain ⟨clock, lookup, found, rest, htranscript, hclock, hobtains, hreplied⟩ :=
    goes_answer_of_errand herrand h.2 h.1
  have hfront := quiet_of_clock hclock
  have hrest : ∀ e ∈ rest, e.request.IsQuiet :=
    (isQuiet_replied (isQuiet_respond herrand _) found).goes hreplied
  -- how the catalog was come by decides the rest
  cases hobtains with
  | kept hfound hgood =>
    refine .kept hfound hgood ?_ ⟨clock, hclock, errand, rest, herrand, htranscript, hreplied⟩
    rw [htranscript, connects_append, connects_of_quiet hfront, List.nil_append, List.nil_append,
      connects_of_quiet hrest]
  | refused hnone =>
    have hconnects : connects v.transcript = [errand.url] :=
      htranscript ▸ connects_of_one hfront hrest
    refine .failed hnone hconnects (fails_of_loads hurl hconnects fun c hloads => ?_)
    obtain ⟨_, _, _, hconnected, _⟩ := (loads_iff hurl htranscript hfront hrest c).mp hloads
    cases hconnected
  | failed hnone hload =>
    have htail := quiet_append ((Catalog.isQuiet_load _ none 0).goes hload) hrest
    have hconnects : connects v.transcript = [errand.url] :=
      htranscript ▸ connects_of_one hfront htail
    refine .failed hnone hconnects (fails_of_loads hurl hconnects fun c hloads => ?_)
    cases (loads_iff_of_load hurl htranscript hfront hrest hload c).mp hloads
  | @loaded connection load _ hnone hload =>
    have htail := quiet_append ((Catalog.isQuiet_load _ none 0).goes hload) hrest
    refine .loaded hnone (htranscript ▸ connects_of_one hfront htail) (fun c' => ?_)
      ⟨clock, connection, load, hclock, hload, errand, rest, herrand, ?_, hreplied⟩
    · rw [loads_iff_of_load hurl htranscript hfront hrest hload, Except.ok.injEq, eq_comm]
    · rw [htranscript, List.append_assoc]

theorem goes_without_url (h : v.Goes settings before after) (hurl : v.url? settings = none) :
    after = before ∧ (connects v.transcript).length ≤ 1 :=
  goes_answer_without_errand (Option.map_eq_none_iff.mp hurl) h.2

/-! ## The catalogs afterwards -/

namespace Course

/-- What is kept afterwards was kept before, unless it is what the visit has loaded. -/
theorem mem (h : Course settings url v before after) (hkeys : before.keys.Nodup)
    {e : Option String × Option Stamped} (he : e ∈ after.entries) :
    (e ∈ before.entries ∧ (e.1 = some url → ∀ c, ¬v.Loads settings url c)) ∨
      ∃ c, v.Loads settings url c ∧ e = (some url, some ⟨.finite v.time, c⟩) := by
  cases h with
  | kept _ _ hconnects _ =>
    exact .inl ⟨(Recency.mem_get hkeys).mp he, fun _ c hload => hload.connects_ne_nil hconnects⟩
  | failed _ _ hfails => exact .inl ⟨(Recency.mem_get hkeys).mp he, fun _ => hfails.2 url⟩
  | loaded _ _ hloads _ =>
    rcases Recency.mem_set he with rfl | ⟨hmem, hne⟩
    · exact .inr ⟨_, (hloads _).mpr rfl, rfl⟩
    · exact .inl ⟨(Recency.mem_get hkeys).mp hmem, fun hkey => absurd hkey hne⟩

theorem nodup (h : Course settings url v before after) (hkeys : before.keys.Nodup) :
    after.keys.Nodup := by
  cases h with
  | kept | failed => exact Recency.nodup_get hkeys
  | loaded => exact Recency.nodup_set (Recency.nodup_get hkeys)

theorem capacity (h : Course settings url v before after) : after.capacity = before.capacity := by
  cases h with
  | kept | failed => exact Recency.capacity_get
  | loaded => exact Recency.capacity_get

/-- A visit that does not fail makes its URL the last one used. -/
theorem recent_self (h : Course settings url v before after) (hnot : ¬v.Fails settings) :
    after.Recent url ∅ := by
  cases h with
  | kept hfound => exact Recency.recent_get_self hfound
  | failed _ _ hfails => exact absurd hfails hnot
  | loaded => exact Recency.recent_set_self _ _ _

/-- For another URL it is one more that has been used since. -/
theorem recent (h : Course settings url v before after) (hkeys : before.keys.Nodup) {other : String}
    (hne : other ≠ url) {others : Finset String} (hrecent : before.Recent other others) :
    after.Recent other (insert url others) := by
  have hget := hrecent.get hne
  cases h with
  | kept | failed => exact hget
  | loaded =>
    rw [← Finset.insert_idem]
    exact hget.set (Recency.nodup_get hkeys) hne _

/-- After a visit that fails nothing good is kept of its URL. -/
theorem not_good (h : Course settings url v before after) (hkeys : before.keys.Nodup)
    (hfails : v.Fails settings) {s : Stamped} (hs : (some url, some s) ∈ after.entries) :
    ¬isGood settings (.finite v.time) s = true := by
  cases h with
  | kept _ _ hconnects _ => exact absurd hconnects hfails.1
  | failed hnone =>
    exact fun hgood => hnone ⟨s, Recency.get_of_mem hkeys ((Recency.mem_get hkeys).mp hs), hgood⟩
  | loaded _ _ hloads _ => exact absurd ((hloads _).mpr rfl) (hfails.2 url _)

end Course

end Visit

/-! ## Visits with given surroundings -/

section Surroundings

variable {σ : Type} {serve : (r : Outside.Request) → σ → Outside.Answer r × σ}

/-- The visit that a call makes with these surroundings, and the catalogs afterwards. -/
def visited (settings : Settings) (serve : (r : Outside.Request) → σ → Outside.Answer r × σ)
    (s : σ) (call : Call) (time : Rat) (before : Catalogs) : Visit × Catalogs :=
  let dialogue := (answer settings (.ok call)).run.run before
  let result := (dialogue.run serve s).1
  (⟨call, time, dialogue.recorded serve s, result.1⟩, result.2)

theorem goes_visited (settings : Settings) {time : Rat}
    (hclock : ∀ s, (serve .now s).1 = .finite time) (s : σ) (call : Call) (before : Catalogs) :
    (visited settings serve s call time before).1.Goes settings before
      (visited settings serve s call time before).2 := by
  refine ⟨fun shown hmem => ?_, Dialogue.goes_recorded (I := Outside.interface) serve _ s⟩
  obtain ⟨s', h⟩ := Dialogue.exists_of_mem_recorded (I := Outside.interface) serve _ s hmem
  exact h.trans (hclock s')

end Surroundings

end LazyFrame.Service
