import LazyFrame.Proofs.Service.Visit

/-!
# Catalogs over whole runs

A run is a list of visits, one after the other, from a service that keeps nothing yet; the clock
does not go back between two visits. Three things hold after every run, each by induction on it:
what is kept of a URL is what was loaded for it last (`Run.lastLoads`); unless a visit for a URL has
failed, its catalog stays until as many others have been visited as the capacity allows for
(`Run.recent`); and after a visit that has failed nothing good is kept of its URL (`Run.not_good`).
From these follows when a visit connects (`Run.thrifty`).
-/

namespace LazyFrame.Service

/-! ## Runs -/

/-- Visits one after the other, and the catalogs that are kept after them. -/
inductive Run (settings : Settings) : List Visit → Catalogs → Prop where
  | start : Run settings [] (.empty settings.cachedConnections)
  | visit {visits : List Visit} {v : Visit} {before after : Catalogs}
    (h : Run settings visits before) (hclock : ∀ w ∈ visits, w.time ≤ v.time)
    (hgoes : v.Goes settings before after) : Run settings (visits ++ [v]) after

/-- A visit is the last of those that have loaded the catalog of a URL, and this is the catalog. -/
def LastLoads (settings : Settings) (visits : List Visit) (url : String) (w : Visit)
    (c : Catalog) : Prop :=
  ∃ first between, visits = first ++ w :: between ∧ w.Loads settings url c ∧
    ∀ x ∈ between, ∀ c', ¬x.Loads settings url c'

/-- A visit is the last one for a URL, and these visits came after it. -/
def Previous (settings : Settings) (visits : List Visit) (url : String) (p : Visit)
    (between : List Visit) : Prop :=
  ∃ first, visits = first ++ p :: between ∧ p.url? settings = some url ∧
    ∀ x ∈ between, x.url? settings ≠ some url

/-- The URLs that visits were for. -/
def urls (settings : Settings) (visits : List Visit) : Finset String :=
  (visits.filterMap fun v => v.url? settings).toFinset

variable {settings : Settings} {visits : List Visit} {v w p : Visit} {url : String} {c : Catalog}
    {between : List Visit}

/-- A call without a URL adds none. -/
theorem urls_concat_of_none (h : v.url? settings = none) :
    urls settings (visits ++ [v]) = urls settings visits := by
  rw [urls, urls, List.filterMap_append, List.filterMap_cons_none h, List.filterMap_nil,
    List.append_nil]

/-- A call adds its URL to those before. -/
theorem urls_concat_of_some (h : v.url? settings = some url) :
    urls settings (visits ++ [v]) = insert url (urls settings visits) := by
  rw [urls, urls, List.filterMap_append, List.filterMap_cons_some h, List.filterMap_nil,
    List.toFinset_append]
  ext x
  simp

/-! ## The last visit of a kind -/

/-- A call that loads is the last one that has. -/
theorem lastLoads_self (visits : List Visit) (h : v.Loads settings url c) :
    LastLoads settings (visits ++ [v]) url v c :=
  ⟨visits, [], rfl, h, fun x hx => by cases hx⟩

/-- A later call that loads nothing leaves it the last one. -/
theorem LastLoads.concat (h : LastLoads settings visits url w c)
    (hv : ∀ c', ¬v.Loads settings url c') : LastLoads settings (visits ++ [v]) url w c := by
  obtain ⟨first, between, rfl, hload, hbetween⟩ := h
  refine ⟨first, between ++ [v], by simp, hload, fun x hx => ?_⟩
  rcases List.mem_append.mp hx with hx | hx
  · exact hbetween x hx
  · exact List.mem_singleton.mp hx ▸ hv

/-- The call that loaded last is among the calls. -/
theorem LastLoads.mem (h : LastLoads settings visits url w c) : w ∈ visits := by
  obtain ⟨first, between, rfl, _⟩ := h
  simp

/-- It was for that URL. -/
theorem LastLoads.url_eq (h : LastLoads settings visits url w c) : w.url? settings = some url := by
  obtain ⟨first, between, _, hload, _⟩ := h
  exact hload.1

/-- No other call loaded last. -/
theorem LastLoads.unique {w' : Visit} {c' : Catalog} (h : LastLoads settings visits url w c)
    (h' : LastLoads settings visits url w' c') : w = w' := by
  obtain ⟨first, between, rfl, hload, hbetween⟩ := h
  obtain ⟨first', between', heq, hload', hbetween'⟩ := h'
  -- what comes behind the one is not the other
  rcases List.append_eq_append_iff.mp heq with ⟨middle, _, hmiddle⟩ | ⟨middle, _, hmiddle⟩
  · cases middle with
    | nil => exact (List.cons.inj hmiddle).1
    | cons x middle =>
      obtain ⟨rfl, rfl⟩ := List.cons.inj hmiddle
      exact absurd hload' (hbetween w' (by simp) c')
  · cases middle with
    | nil => exact (List.cons.inj hmiddle).1.symm
    | cons x middle =>
      obtain ⟨rfl, rfl⟩ := List.cons.inj hmiddle
      exact absurd hload (hbetween' w (by simp) c)

/-- The last visit for a URL is the very last one, or it was the last one before that already. -/
theorem Previous.cases_concat (h : Previous settings (visits ++ [v]) url p between) :
    (between = [] ∧ p = v ∧ v.url? settings = some url) ∨
      ∃ between', between = between' ++ [v] ∧ v.url? settings ≠ some url ∧
        Previous settings visits url p between' := by
  obtain ⟨first, heq, hurl, hbetween⟩ := h
  rcases List.eq_nil_or_concat between with rfl | ⟨between', x, rfl⟩
  · obtain ⟨rfl, hlast⟩ := List.append_inj' heq rfl
    obtain rfl := (List.cons.inj hlast).1
    exact .inl ⟨rfl, rfl, hurl⟩
  · rw [List.concat_eq_append] at heq hbetween ⊢
    rw [← List.cons_append, ← List.append_assoc] at heq
    obtain ⟨rfl, hlast⟩ := List.append_inj' heq rfl
    obtain rfl := (List.cons.inj hlast).1
    exact .inr ⟨between', rfl, hbetween v (by simp),
      first, rfl, hurl, fun y hy => hbetween y (List.mem_append_left _ hy)⟩

/-- The previous call for a URL is among the calls. -/
theorem Previous.mem (h : Previous settings visits url p between) : p ∈ visits := by
  obtain ⟨first, rfl, _⟩ := h
  simp

/-- If there was a call for a URL, there was a last one. -/
theorem exists_previous (hw : w ∈ visits) (hurl : w.url? settings = some url) :
    ∃ p between, Previous settings visits url p between := by
  induction visits using List.reverseRecOn with
  | nil => cases hw
  | append_singleton visits v ih =>
    by_cases hv : v.url? settings = some url
    · exact ⟨v, [], visits, rfl, hv, fun x hx => by cases hx⟩
    · rcases List.mem_append.mp hw with hmem | hmem
      · obtain ⟨p, between, first, rfl, hp, hbetween⟩ := ih hmem
        refine ⟨p, between ++ [v], first, by simp, hp, fun x hx => ?_⟩
        rcases List.mem_append.mp hx with hx | hx
        · exact hbetween x hx
        · exact List.mem_singleton.mp hx ▸ hv
      · exact absurd (List.mem_singleton.mp hmem ▸ hurl) hv

/-! ## What holds after every run -/

namespace Run

variable {catalogs : Catalogs}

/-- The catalogs that are kept are limited as the settings say. -/
theorem capacity (h : Run settings visits catalogs) :
    catalogs.capacity = settings.cachedConnections := by
  induction h with
  | start => rfl
  | @visit visits v before after _ _ hgoes ih =>
    cases hurl : v.url? settings with
    | none => rw [(Visit.goes_without_url hgoes hurl).1, ih]
    | some url => rw [(Visit.course_of_goes hgoes hurl).capacity, ih]

/-- No catalog is kept twice. -/
theorem nodup (h : Run settings visits catalogs) : catalogs.keys.Nodup := by
  induction h with
  | start => exact List.nodup_nil
  | @visit visits v before after _ _ hgoes ih =>
    cases hurl : v.url? settings with
    | none => rwa [(Visit.goes_without_url hgoes hurl).1]
    | some url => exact (Visit.course_of_goes hgoes hurl).nodup ih

/-- What is kept of a URL was loaded by the last visit that has loaded a catalog for it. -/
theorem lastLoads (h : Run settings visits catalogs) {e : Option String × Option Stamped}
    (he : e ∈ catalogs.entries) :
    ∃ url s w, e = (some url, some s) ∧ LastLoads settings visits url w s.catalog ∧
      s.loaded = .finite w.time := by
  induction h with
  | start => cases he
  | @visit visits v before after hrun _ hgoes ih =>
    cases hurl : v.url? settings with
    | none =>
      rw [(Visit.goes_without_url hgoes hurl).1] at he
      obtain ⟨url, s, w, rfl, hlast, htime⟩ := ih he
      exact ⟨url, s, w, rfl, hlast.concat (fun c hload => nomatch hurl.symm.trans hload.1), htime⟩
    | some url' =>
      obtain ⟨hmem, hnone⟩ | ⟨c, hload, rfl⟩ := (Visit.course_of_goes hgoes hurl).mem hrun.nodup he
      · obtain ⟨url, s, w, rfl, hlast, htime⟩ := ih hmem
        refine ⟨url, s, w, rfl, hlast.concat fun c hload => ?_, htime⟩
        obtain rfl : url' = url := Option.some.inj (hurl.symm.trans hload.1)
        exact hnone rfl c hload
      · exact ⟨url', _, v, rfl, lastLoads_self visits hload, rfl⟩

/-- The URL of a visit that has not failed is the last one used but for those visited since. -/
theorem recent (h : Run settings visits catalogs)
    (hprevious : Previous settings visits url p between) (hnot : ¬p.Fails settings) :
    catalogs.Recent url (urls settings between) := by
  induction h generalizing between with
  | start =>
    obtain ⟨first, heq, _⟩ := hprevious
    simp at heq
  | @visit visits v before after hrun _ hgoes ih =>
    obtain ⟨rfl, rfl, hurl⟩ | ⟨between', rfl, hne, hprevious'⟩ := hprevious.cases_concat
    · exact (Visit.course_of_goes hgoes hurl).recent_self hnot
    · have hrecent := ih hprevious'
      cases hurl : v.url? settings with
      | none => rwa [urls_concat_of_none hurl, (Visit.goes_without_url hgoes hurl).1]
      | some url' =>
        rw [urls_concat_of_some hurl]
        exact (Visit.course_of_goes hgoes hurl).recent hrun.nodup
          (fun heq => hne (hurl.trans (congrArg some heq.symm))) hrecent

/-- After a visit that has failed nothing is kept of its URL that was good then, until there is
another visit for it. -/
theorem not_good (h : Run settings visits catalogs)
    (hprevious : Previous settings visits url p between) (hfails : p.Fails settings) {s : Stamped}
    (hs : (some url, some s) ∈ catalogs.entries) : ¬isGood settings (.finite p.time) s = true := by
  induction h generalizing between with
  | start => cases hs
  | @visit visits v before after hrun _ hgoes ih =>
    obtain ⟨rfl, rfl, hurl⟩ | ⟨between', rfl, hne, hprevious'⟩ := hprevious.cases_concat
    · exact (Visit.course_of_goes hgoes hurl).not_good hrun.nodup hfails hs
    · cases hurl : v.url? settings with
      | none =>
        rw [(Visit.goes_without_url hgoes hurl).1] at hs
        exact ih hprevious' hs
      | some url' =>
        obtain ⟨hmem, _⟩ | ⟨c, _, heq⟩ := (Visit.course_of_goes hgoes hurl).mem hrun.nodup hs
        · exact ih hprevious' hmem
        · obtain rfl : url = url' := Option.some.inj (Prod.mk.inj heq).1
          exact absurd hurl hne

/-- Every visit of a run goes with the catalogs kept after those before it. -/
theorem exists_before (h : Run settings visits catalogs) {earlier later : List Visit}
    (heq : visits = earlier ++ v :: later) :
    ∃ before after, Run settings earlier before ∧ (∀ w ∈ earlier, w.time ≤ v.time) ∧
      v.Goes settings before after := by
  induction h generalizing later with
  | start => simp at heq
  | @visit visits last before after hrun hclock hgoes ih =>
    rcases List.eq_nil_or_concat later with rfl | ⟨later', x, rfl⟩
    · obtain ⟨rfl, hlast⟩ := List.append_inj' heq rfl
      obtain rfl := (List.cons.inj hlast).1
      exact ⟨before, after, hrun, hclock, hgoes⟩
    · rw [List.concat_eq_append, ← List.cons_append, ← List.append_assoc] at heq
      exact ih (List.append_inj' heq rfl).1

end Run

/-- Whatever is called and whatever the surroundings answer, that is a run, if the clock does not go
back. -/
theorem exists_run {σ : Type} (settings : Settings)
    (serve : Rat → (r : Outside.Request) → σ → Outside.Answer r × σ)
    (hclock : ∀ time s, (serve time .now s).1 = .finite time) (s : σ) (calls : List (Call × Rat))
    (hcalls : calls.Pairwise fun first second => first.2 ≤ second.2) :
    ∃ visits catalogs, Run settings visits catalogs ∧
      visits.map (fun v => (v.call, v.time)) = calls := by
  induction calls using List.reverseRecOn with
  | nil => exact ⟨[], _, .start, rfl⟩
  | append_singleton calls last ih =>
    obtain ⟨hcalls, _, hlast⟩ := List.pairwise_append.mp hcalls
    obtain ⟨visits, catalogs, hrun, rfl⟩ := ih hcalls
    have hgoes := goes_visited settings (hclock last.2) s last.1 catalogs
    refine ⟨_, _, hrun.visit (fun w hw => ?_) hgoes, by simp [visited]⟩
    exact hlast (w.call, w.time) (List.mem_map_of_mem hw) last (List.mem_singleton_self last)

/-! ## When a visit connects -/

/-- When a visit for a URL connects, after the visits before it. -/
structure Connecting (settings : Settings) (capacity : Int) (earlier : List Visit) (url : String)
    (v : Visit) : Prop where
  /-- It connects once, to its URL, or not at all. -/
  once : connects v.transcript = [] ∨ connects v.transcript = [url]
  /-- Without a connection it replies over the catalog that was loaded last for its URL, and that is
  still fresh. -/
  kept : connects v.transcript = [] → ∃ w c, LastLoads settings earlier url w c ∧
  settings.IsFresh w.time v.time ∧
    v.RepliesOverKept settings c
  /-- With a connection it replies over the catalog that it has loaded, unless it has failed to load
  one. -/
  reloaded : connects v.transcript = [url] → v.Fails settings ∨
    ∃ c, v.Loads settings url c ∧ v.RepliesOverLoaded settings url c
  /-- It connects if the previous visit for its URL has failed. -/
  after_failure : ∀ p between, Previous settings earlier url p between → p.Fails settings →
  connects v.transcript = [url]
  /-- It connects although what was loaded last is fresh only if the previous visit for its URL has
  failed, or if since then as many other URLs were visited as the capacity says. -/
  reason : connects v.transcript = [url] → ∀ w c, LastLoads settings earlier url w c →
  settings.IsFresh w.time v.time →
    ∃ p between, Previous settings earlier url p between ∧
      (p.Fails settings ∨ capacity ≤ ((urls settings between).card : Int))

namespace Run

variable {before after : Catalogs} {earlier : List Visit} {capacity : Int}

/-- What is kept of a URL is a catalog with the time of the visit that was the last to load one for
it. -/
theorem stamped (h : Run settings earlier before) {value : Option Stamped}
    (hmem : (some url, value) ∈ before.entries) :
    ∃ c w, value = some ⟨.finite w.time, c⟩ ∧ LastLoads settings earlier url w c := by
  obtain ⟨url', ⟨loaded, c⟩, w, heq, hload, rfl⟩ := h.lastLoads hmem
  cases heq
  exact ⟨c, w, rfl, hload⟩

/-- A fresh catalog is kept unless the previous visit for its URL has failed or there were too many
others since. -/
theorem hasGood_or (h : Run settings earlier before)
    (hcapacity : settings.cachedConnections.toRat? = some (capacity : Rat)) {now : Rat}
    (hload : LastLoads settings earlier url w c) (hfresh : settings.IsFresh w.time now)
    (hprevious : Previous settings earlier url p between) :
    HasGood settings url (.finite now) before ∨ p.Fails settings ∨
    capacity ≤ ((urls settings between).card : Int) := by
  by_cases hfails : p.Fails settings
  · exact .inr (.inl hfails)
  rcases (h.recent hprevious hfails).lt_or_mem with hfull | ⟨value, hmem⟩
  · rw [h.capacity, Number.lt_of_toRat? hcapacity rfl, decide_eq_true_iff] at hfull
    have hless : capacity < ((urls settings between).card : Int) + 1 := by exact_mod_cast hfull
    exact .inr (.inr (Int.lt_add_one_iff.mp hless))
  · obtain ⟨c', w', rfl, hload'⟩ := h.stamped hmem
    obtain rfl := hload.unique hload'
    exact .inl ⟨_, Recency.get_of_mem h.nodup hmem, isGood_iff.mpr hfresh⟩

/-- A visit that connects does so for want of something good. -/
theorem connecting_of_connects (h : Run settings earlier before)
    (hcapacity : settings.cachedConnections.toRat? = some (capacity : Rat))
    (hconnects : connects v.transcript = [url])
    (hnone : ¬HasGood settings url (.finite v.time) before)
    (hreplies : v.Fails settings ∨ ∃ c, v.Loads settings url c ∧
      v.RepliesOverLoaded settings url c) :
    Connecting settings capacity earlier url v := by
  refine ⟨.inr hconnects, fun hnil => ?_, fun _ => hreplies, fun _ _ _ _ => hconnects,
    fun _ w c hload hfresh => ?_⟩
  · rw [hconnects] at hnil
    cases hnil
  · obtain ⟨p, between, hprevious⟩ := exists_previous hload.mem hload.url_eq
    exact ⟨p, between, hprevious,
      (h.hasGood_or hcapacity hload hfresh hprevious).resolve_left hnone⟩

/-- A visit of a run connects when it has to. -/
theorem connecting (h : Run settings earlier before)
    (hcapacity : settings.cachedConnections.toRat? = some (capacity : Rat))
    (hclock : ∀ w ∈ earlier, w.time ≤ v.time)
    (hgoes : v.Goes settings before after) (hurl : v.url? settings = some url) :
    Connecting settings capacity earlier url v := by
  cases Visit.course_of_goes hgoes hurl with
  | kept hfound hgood hconnects hreplies =>
    have hmem := Recency.mem_of_get_eq_some hfound
    obtain ⟨c, w, heq, hload⟩ := h.stamped hmem
    cases heq
    have hfresh : settings.IsFresh w.time v.time := isGood_iff.mp hgood
    have hnot : connects v.transcript ≠ [url] := fun hone => by
      rw [hconnects] at hone
      cases hone
    refine ⟨.inl hconnects, fun _ => ⟨w, c, hload, hfresh, hreplies⟩, fun hone => absurd hone hnot,
      fun p between hprevious hfails => ?_, fun hone => absurd hone hnot⟩
    -- what is good now was good when that visit failed
    have hearlier := hfresh.earlier (hclock p hprevious.mem)
    exact absurd (isGood_iff.mpr hearlier) (h.not_good hprevious hfails hmem)
  | failed hnone hconnects hfails =>
    exact h.connecting_of_connects hcapacity hconnects hnone (.inl hfails)
  | loaded hnone hconnects hloads hreplies =>
    exact h.connecting_of_connects hcapacity hconnects hnone
      (.inr ⟨_, (hloads _).mpr rfl, hreplies⟩)

end Run

/-- What a service does about catalogs over a run. -/
structure Thrifty (settings : Settings) (capacity ttl : Int) (visits : List Visit)
    (catalogs : Catalogs) : Prop where
  capacity_eq : settings.cachedConnections.toRat? = some (capacity : Rat)
  ttl_eq : settings.schemaTtlSeconds.toRat? = some (ttl : Rat)
  /-- At an age of no more than the time to live a catalog is fresh. -/
  fresh_of_le : ∀ loaded now : Rat, now - loaded ≤ ttl * 1000 → settings.IsFresh loaded now
  /-- By a clock of whole milliseconds it is fresh at these ages only. -/
  fresh_iff : ∀ loaded now : Nat, loaded ≤ now → now ≤ 2 ^ 53 →
    (settings.IsFresh loaded now ↔ (now : Int) - (loaded : Int) ≤ ttl * 1000)
  /-- Only what a visit has loaded is kept, and it is what was loaded last for its URL. -/
  loaded : ∀ e ∈ catalogs.entries, ∃ url s w, e = (some url, some s) ∧
  LastLoads settings visits url w s.catalog ∧
    s.loaded = .finite w.time
  connects_once : ∀ v ∈ visits, (connects v.transcript).length ≤ 1
  connecting : ∀ earlier v later, visits = earlier ++ v :: later →
  ∀ url, v.url? settings = some url →
    Connecting settings capacity earlier url v

/-- Under every environment, every run of visits connects as rarely as the capacity and the time to
live allow. -/
theorem Run.thrifty {environment : List (String × String)} {catalogs : Catalogs}
    (h : Run (.ofEnvironment environment) visits catalogs) :
    ∃ capacity ttl : Int, Thrifty (.ofEnvironment environment) capacity ttl visits catalogs := by
  obtain ⟨capacity, hcapacity⟩ := Settings.isWhole_cachedConnections environment
  obtain ⟨ttl, httl⟩ := Settings.isWhole_schemaTtlSeconds environment
  refine ⟨capacity, ttl, hcapacity, httl, fun _ _ => Settings.isFresh_of_le httl,
    fun _ _ => Settings.isFresh_iff httl, fun e he => h.lastLoads he, fun v hv => ?_,
    fun earlier v later heq url hurl => ?_⟩
  · obtain ⟨earlier, later, heq⟩ := List.append_of_mem hv
    obtain ⟨before, after, hrun, hclock, hgoes⟩ := h.exists_before heq
    cases hurl : v.url? (.ofEnvironment environment) with
    | none => exact (Visit.goes_without_url hgoes hurl).2
    | some url =>
      rcases (hrun.connecting hcapacity hclock hgoes hurl).once with hnone | hone
      · rw [hnone]
        exact Nat.zero_le 1
      · rw [hone]
        exact Nat.le_refl 1
  · obtain ⟨before, after, hrun, hclock, hgoes⟩ := h.exists_before heq
    exact hrun.connecting hcapacity hclock hgoes hurl

/-- The surroundings of a database with one table at some time. -/
def oneTable (time : Rat) : (r : Outside.Request) → Unit → Outside.Answer r × Unit
  | .connect _, s => (.ok ⟨0, none, false⟩, s)
  | .listTables _, s => (.ok ["tracks"], s)
  | .listColumns _ _, s => (.ok [.named "id" "integer"], s)
  | .execute _ _, s => (.ok (.list []), s)
  | .ping _, s => (.ok (), s)
  | .log _, s => ((), s)
  | .now, s => (.finite time, s)

/-- Two visits with the default settings and a quarter of an hour between them: the second one does
not connect. -/
theorem Run.thrifty_tables :
    let settings := Settings.ofEnvironment [("PG_URL", "music")]
    let first :=
      visited settings (oneTable 0) () (.tables none) 0 (.empty settings.cachedConnections)
    let second := visited settings (oneTable 900000) () (.overview (some "music")) 900000 first.2
    connects first.1.transcript = ["music"] ∧ connects second.1.transcript = [] ∧
      ∃ capacity ttl : Int, Thrifty settings capacity ttl [first.1, second.1] second.2 :=
  ⟨by decide +kernel, by decide +kernel, Run.thrifty (.visit (.visit .start (by simp)
    (goes_visited _ (fun _ => rfl) () _ _)) (by simp [visited]) (goes_visited _
      (fun _ => rfl) () _ _))⟩

end LazyFrame.Service
