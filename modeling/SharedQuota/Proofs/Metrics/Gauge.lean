import SharedQuota.Proofs.Cluster.Answer
import SharedQuota.Proofs.Snapshot.Taken
import Mathlib.Data.List.Induction

/-!
The gauges of usage, after readings that were taken one after the other of a cluster that changes in
between. A gauge shows what the latest reading with an entry for it told (`get?_totalUsage`,
`get?_namespaceUsage`). Main statement (`isCurrent_iff`): the gauges show the last reading, unless
that has no entry for what an earlier one told to be in use.
-/

namespace SharedQuota

/-! ### Going through a table -/

namespace Table

variable {κ α β γ : Type}

theorem foldl_of_ne {f : β → κ × α → β} {read : β → γ} {k : κ} {l : List (κ × α)}
    (h : ∀ b, ∀ e ∈ l, e.1 ≠ k → read (f b e) = read b) (hne : k ∉ l.map (·.1)) (b : β) :
    read (l.foldl f b) = read b := by
  refine List.foldlRecOn l f (motive := fun b' => read b' = read b) rfl fun b' hb' e he => ?_
  rw [h b' e he fun hk => hne (List.mem_map.2 ⟨e, he, hk⟩), hb']

variable [Ord κ] [Std.LawfulEqOrd κ]

/-- What only the entry of one key changes is left as it is, or as that entry makes it. -/
theorem foldl_entries (t : Table κ α) (f : β → κ × α → β) (read : β → γ) (k : κ)
    (h : ∀ b, ∀ e ∈ t.entries, e.1 ≠ k → read (f b e) = read b) (b : β) :
    (t.get? k = none ∧ read (t.entries.foldl f b) = read b) ∨
    ∃ a b', t.get? k = some a ∧ read b' = read b ∧
      read (t.entries.foldl f b) = read (f b' (k, a)) := by
  cases ha : t.get? k with
  | none =>
    have hne : k ∉ t.entries.map (·.1) := by
      rw [← keys, mem_keys_iff, contains, ha]
      simp
    exact .inl ⟨rfl, foldl_of_ne h hne b⟩
  | some a =>
    obtain ⟨before, after, hsplit⟩ := List.append_of_mem ((mem_entries_iff t).2 ha)
    have hnodup := t.keys_nodup
    rw [keys, hsplit, List.map_append, List.map_cons, List.nodup_middle, List.nodup_cons,
      List.mem_append, not_or] at hnodup
    obtain ⟨⟨hbefore, hafter⟩, -⟩ := hnodup
    rw [hsplit] at h ⊢
    refine .inr ⟨a, before.foldl f b, rfl,
      foldl_of_ne (fun b e he => h b e (by simp [he])) hbefore b, ?_⟩
    rw [List.foldl_append, List.foldl_cons]
    exact foldl_of_ne (fun b e he => h b e (by simp [he])) hafter _

end Table

/-! ### Gauges -/

namespace Metrics

/-- A gauge is set by an entry, and otherwise stays. -/
theorem get?_gauge (f : Family Quantity) (labels : List String) (usage : ResourceList)
    (r : ResourceName) : (gauge f labels usage).get? (labels ++ [r.text]) =
      (usage.get? r).or (f.get? (labels ++ [r.text])) := by
  have hcases := Table.foldl_entries usage
    (fun (f : Family Quantity) (e : ResourceName × Quantity) => f.insert (labels ++ [e.1.text]) e.2)
    (fun f => f.get? (labels ++ [r.text])) r (fun f e _ hne => ?_) f
  · rcases hcases with ⟨hr, hread⟩ | ⟨q, f', hr, -, hread⟩
    · rw [hr]
      exact hread
    · rw [Table.get?_insert, if_pos rfl] at hread
      rw [hr]
      exact hread
  · rw [Table.get?_insert, if_neg]
    intro hkey
    obtain ⟨-, hlast⟩ := List.append_inj' hkey rfl
    exact hne (ResourceName.ext (List.cons.inj hlast).1.symm)

theorem get?_gauge_of_ne {labels labels' : List String} (hne : labels ≠ labels')
    (f : Family Quantity) (usage : ResourceList) (text : String) :
    (gauge f labels usage).get? (labels' ++ [text]) = f.get? (labels' ++ [text]) := by
  refine List.foldlRecOn usage.entries _
    (motive := fun g : Family Quantity => g.get? _ = f.get? _) rfl fun g hg e _ => ?_
  rw [Table.get?_insert, if_neg, hg]
  intro hkey
  exact hne (List.append_inj' hkey rfl).1.symm

/-! ### Readings that are reported -/

section

variable (m : Metrics) (quota : String) (elapsed : Nat) (s : Snapshot)

def report : Metrics := (Engine.readingReports quota elapsed s).foldl observe m

theorem totalUsage_report :
    (m.report quota elapsed s).totalUsage = gauge m.totalUsage [quota] s.total := by
  rw [report, Engine.readingReports, List.foldl_cons, List.foldl_cons, List.foldl_map]
  exact List.foldlRecOn (motive := fun m' : Metrics => m'.totalUsage = _) s.namespaces.entries _ rfl
    fun m' hm' e _ => hm'

theorem get?_totalUsage_report (quota' : String) (r : ResourceName) :
    (m.report quota elapsed s).totalUsage.get? [quota', r.text] =
      (if quota = quota' then s.total.get? r else none).or
        (m.totalUsage.get? [quota', r.text]) := by
  rw [totalUsage_report]
  split
  case isTrue heq =>
    subst heq
    exact get?_gauge m.totalUsage [quota] s.total r
  case isFalse hne =>
    have hlabels : [quota] ≠ [quota'] := by simpa using hne
    exact get?_gauge_of_ne hlabels m.totalUsage s.total r.text

/-- Of the reports of a reading only that of a namespace sets the gauges of the namespace. -/
theorem get?_namespaceUsage_report (quota' name : String) (r : ResourceName) :
    (m.report quota elapsed s).namespaceUsage.get? [quota', name, r.text] =
      (if quota = quota' then (s.usedIn name).get? r else none).or
        (m.namespaceUsage.get? [quota', name, r.text]) := by
  rw [report, Engine.readingReports, List.foldl_cons, List.foldl_cons, List.foldl_map]
  by_cases heq : quota = quota'
  · subst heq
    have hapart (m : Metrics) (e : String × ResourceList) (hne : e.1 ≠ name) :
        (m.observe (.namespaceUsage quota e.1 e.2)).namespaceUsage.get? [quota, name, r.text] =
          m.namespaceUsage.get? [quota, name, r.text] := by
      have hlabels : [quota, e.1] ≠ [quota, name] := by simpa using hne
      exact get?_gauge_of_ne hlabels m.namespaceUsage e.2 r.text
    rw [if_pos rfl, Snapshot.usedIn]
    rcases Table.foldl_entries s.namespaces
        (fun (m : Metrics) e => m.observe (.namespaceUsage quota e.1 e.2))
        (fun m => m.namespaceUsage.get? [quota, name, r.text]) name (fun m e _ => hapart m e)
        ((m.observe (.aggregation quota elapsed)).observe (.totalUsage quota s.total)) with
      ⟨hname, hread⟩ | ⟨used, m', hname, hm', hread⟩
    · rw [hname]
      exact hread
    · rw [hname, hread, Option.getD_some]
      exact (get?_gauge m'.namespaceUsage [quota, name] used r).trans (congrArg _ hm')
  · rw [if_neg heq, Option.none_or]
    refine List.foldlRecOn (motive := fun m' : Metrics => m'.namespaceUsage.get? _ = _)
      s.namespaces.entries _ rfl fun m' hm' e _ => ?_
    have hlabels : [quota, e.1] ≠ [quota', name] := by simp [heq]
    exact (get?_gauge_of_ne hlabels m'.namespaceUsage e.2 r.text).trans hm'

end

end Metrics

/-! ### Resources without an entry -/

namespace Snapshot

variable {q : Quota} {scope : Scope} {resources : KeySet ResourceName} {tolerance : Nat}
  {c : Cluster} {now : Now} {deadline : Nat} {s : Snapshot} {r : ResourceName}

theorem contains_total_recompute (reads : Table String ResourceList)
    (hr : resources.contains r = true) : (recompute reads resources).total.contains r = true ↔
      ∃ name, ((recompute reads resources).usedIn name).contains r = true := by
  rw [recompute, ResourceList.contains_restrict, and_iff_right ((KeySet.mem_toList_iff _).2 hr),
    ResourceList.contains_foldl_addAll fun used => used, or_iff_right (Table.not_contains_empty r)]
  constructor
  · rintro ⟨used, hused, hcontains⟩
    obtain ⟨name, hname⟩ := (Table.mem_values_iff reads).1 hused
    exact ⟨name, by rw [usedIn, hname]; exact hcontains⟩
  · rintro ⟨name, hcontains⟩
    rw [usedIn] at hcontains
    cases hname : reads.get? name with
    | none =>
      rw [hname] at hcontains
      cases hcontains
    | some used =>
      rw [hname] at hcontains
      exact ⟨used, (Table.mem_values_iff reads).2 ⟨name, hname⟩, hcontains⟩

/-- A total that is recorded has an entry for all that is asked for, and one that is added up for
what some namespace has one for. -/
theorem contains_total_iff (h : take q scope resources tolerance c now deadline = .ok s)
    (hr : resources.contains r = true) : s.total.contains r = true ↔
      s.source = .status ∨ ∃ name, (s.usedIn name).contains r = true := by
  rw [take] at h
  split at h
  next hstatus =>
    cases h
    obtain ⟨synced, used, entries, -, -, -, -, hall, -, rfl⟩ := ofStatus?_eq_some_iff.1 hstatus
    have hmem := (KeySet.mem_toList_iff _).2 hr
    rw [ResourceList.contains_restrict, and_iff_right hmem, List.all_eq_true.1 hall r hmem]
    simp
  next =>
    obtain ⟨reads, -, rfl⟩ := ok_of_map h
    rw [contains_total_recompute reads hr, or_iff_right (by simp [recompute])]

end Snapshot

/-! ### Readings one after the other -/

/-- A reading that was taken of what an API server held at the time, and how long it took. -/
structure Aggregation (x : Extractor) (kinds : ObjectCountKinds) (tolerance : Nat) where
  server : ApiServer
  quota : Quota
  scope : Scope
  resources : KeySet ResourceName
  now : Now
  deadline : Nat
  elapsed : Nat
  snapshot : Snapshot
  taken : Snapshot.take quota scope resources tolerance (server.cluster x kinds) now deadline =
    .ok snapshot

namespace Aggregation

variable {x : Extractor} {kinds : ObjectCountKinds} {tolerance : Nat}

/-- What the process shows after some readings. -/
def reported (calls : List (Aggregation x kinds tolerance)) : Metrics :=
  calls.foldl (fun m a => m.report a.quota.name a.elapsed a.snapshot) .empty

/-- What a reading tells of a resource in all of a quota's namespaces, if it has an entry. -/
def total? (quota : String) (r : ResourceName) (a : Aggregation x kinds tolerance) :
    Option Quantity :=
  if a.quota.name = quota then a.snapshot.total.get? r else none

def usedIn? (quota name : String) (r : ResourceName) (a : Aggregation x kinds tolerance) :
    Option Quantity :=
  if a.quota.name = quota then (a.snapshot.usedIn name).get? r else none

/-- After some readings and one more, all gauges of that show what it says of what was asked for;
they may never have been set. -/
structure IsCurrent (a : Aggregation x kinds tolerance)
    (past : List (Aggregation x kinds tolerance)) : Prop where
  total : ∀ r, a.resources.contains r = true → ∀ q,
    (reported (past ++ [a])).totalUsage.get? [a.quota.name, r.text] = some q →
      q = a.snapshot.total.amount r
  namespaces : ∀ name, a.snapshot.namespaces.contains name = true → ∀ r,
    a.resources.contains r = true → ∀ q,
      (reported (past ++ [a])).namespaceUsage.get? [a.quota.name, name, r.text] = some q →
        q = (a.snapshot.usedIn name).amount r

/-- The last reading has no entry for a resource that was asked for, and the latest that had one
told that it was in use: of the total, which then was added up, or of a namespace. -/
def LeavesStale (a : Aggregation x kinds tolerance) (past : List (Aggregation x kinds tolerance)) :
    Prop :=
  ∃ r, a.resources.contains r = true ∧
    ((a.snapshot.source = .recomputed ∧ (∀ name, ¬ (a.snapshot.usedIn name).contains r = true) ∧
        ∃ q, past.reverse.findSome? (total? a.quota.name r) = some q ∧ q ≠ 0) ∨
      ∃ name, a.snapshot.namespaces.contains name = true ∧
        ¬ (a.snapshot.usedIn name).contains r = true ∧
          ∃ q, past.reverse.findSome? (usedIn? a.quota.name name r) = some q ∧ q ≠ 0)

variable (past : List (Aggregation x kinds tolerance)) (a : Aggregation x kinds tolerance)

/-- A reading of the usage has an entry for a namespace exactly if some object of the namespace has
one, or if objects of a kind are counted. -/
theorem contains_usedIn_iff {name : String} {c : Contents} {r : ResourceName}
    (hsource : a.snapshot.source = .recomputed)
    (hname : a.snapshot.namespaces.contains name = true) (hshows : a.server.Shows kinds name c)
    (hr : a.resources.contains r = true)
    (hstorage : r = .storage → "storage" ∈ x.tracked →
      a.resources.toList.any ResourceName.ofPods = true ∨ c.pods = []) :
    (a.snapshot.usedIn name).contains r = true ↔
      (∃ u ∈ c.parts x, u.contains r = true) ∨ ∃ k ∈ kinds.values, k.countResource = r := by
  have htaken := a.taken
  rw [Snapshot.take] at htaken
  split at htaken
  next hstatus =>
    cases htaken
    rw [(Snapshot.of_ofStatus? hstatus).1] at hsource
    cases hsource
  next =>
    obtain ⟨-, -, used, hused, hsums⟩ := Snapshot.of_gathered htaken
    have hscope : a.scope.aggregated.contains name = true := by
      rw [Table.contains, hsums.namespaces] at hname
      by_contra hnot
      rw [if_neg hnot] at hname
      cases hname
    have husage := (hused name hscope).answer
    rw [hshows.answer_usage] at husage
    rw [hsums.usedIn hscope, ← Except.ok.inj husage, Contents.contains_usage hr hstorage]

theorem reported_concat :
    reported (past ++ [a]) = (reported past).report a.quota.name a.elapsed a.snapshot := by
  simp [reported]

/-- A gauge shows the latest entry. -/
theorem get?_totalUsage (quota : String) (r : ResourceName) :
    (reported past).totalUsage.get? [quota, r.text] = past.reverse.findSome? (total? quota r) := by
  induction past using List.reverseRecOn with
  | nil => rfl
  | append_singleton past a ih =>
    rw [reported_concat, Metrics.get?_totalUsage_report, ih, List.reverse_concat,
      List.findSome?_cons, ← total?]
    cases total? quota r a <;> rfl

theorem get?_namespaceUsage (quota name : String) (r : ResourceName) :
    (reported past).namespaceUsage.get? [quota, name, r.text] =
      past.reverse.findSome? (usedIn? quota name r) := by
  induction past using List.reverseRecOn with
  | nil => rfl
  | append_singleton past a ih =>
    rw [reported_concat, Metrics.get?_namespaceUsage_report, ih, List.reverse_concat,
      List.findSome?_cons, ← usedIn?]
    cases usedIn? quota name r a <;> rfl

/-- A gauge that is set by an entry, and otherwise stays, is right unless there is no entry and it
has been something else than nothing. -/
theorem shows_iff {l : ResourceList} {r : ResourceName} {told : Option Quantity} :
    (∀ q, (l.get? r).or told = some q → q = l.amount r) ↔
      ¬ (¬ l.contains r = true ∧ ∃ q, told = some q ∧ q ≠ 0) := by
  cases hr : l.get? r with
  | none => simp [ResourceList.amount, Table.contains, hr]
  | some q => simp [ResourceList.amount, Table.contains, hr, eq_comm]

theorem shows_total_iff {r : ResourceName} (hr : a.resources.contains r = true) :
    (∀ q, (reported (past ++ [a])).totalUsage.get? [a.quota.name, r.text] = some q →
      q = a.snapshot.total.amount r) ↔
    ¬ (a.snapshot.source = .recomputed ∧ (∀ name, ¬ (a.snapshot.usedIn name).contains r = true) ∧
      ∃ q, past.reverse.findSome? (total? a.quota.name r) = some q ∧ q ≠ 0) := by
  have hsource : ¬ a.snapshot.source = .status ↔ a.snapshot.source = .recomputed := by
    cases a.snapshot.source <;> simp
  rw [reported_concat, Metrics.get?_totalUsage_report, if_pos rfl, get?_totalUsage, shows_iff,
    Snapshot.contains_total_iff a.taken hr, not_or, not_exists, hsource, and_assoc]

theorem shows_usedIn_iff {r : ResourceName} (name : String) :
    (∀ q, (reported (past ++ [a])).namespaceUsage.get? [a.quota.name, name, r.text] = some q →
      q = (a.snapshot.usedIn name).amount r) ↔
    ¬ (¬ (a.snapshot.usedIn name).contains r = true ∧
      ∃ q, past.reverse.findSome? (usedIn? a.quota.name name r) = some q ∧ q ≠ 0) := by
  rw [reported_concat, Metrics.get?_namespaceUsage_report, if_pos rfl, get?_namespaceUsage,
    shows_iff]

/-- The gauges show the last reading, unless that leaves one of them as it was. -/
theorem isCurrent_iff : a.IsCurrent past ↔ ¬ a.LeavesStale past := by
  constructor
  · rintro hcurrent ⟨r, hr, htotal | ⟨name, hname, hstale⟩⟩
    · exact (shows_total_iff past a hr).1 (hcurrent.total r hr) htotal
    · exact (shows_usedIn_iff past a name).1 (hcurrent.namespaces name hname r hr) hstale
  · intro hnot
    refine ⟨fun r hr => (shows_total_iff past a hr).2 fun hstale => ?_,
      fun name hname r hr => (shows_usedIn_iff past a name).2 fun hstale => ?_⟩
    · exact hnot ⟨r, hr, .inl hstale⟩
    · exact hnot ⟨r, hr, .inr ⟨name, hname, hstale⟩⟩

/-! A quota of pods in one namespace, which has some pods without containers. -/

private def somePods (n : Nat) : ApiServer :=
  ⟨Table.ofList [("/api/v1/namespaces/ns/pods",
    List.replicate n (.object [("spec", .object [("containers", .array [])])]))], Table.empty⟩

private def podsQuota : Quota where
  metadata := ⟨some "team", none, none, none, none, []⟩
  spec := ⟨none, Table.ofList [("pods", "4")]⟩
  status := none

private def podsScope : Scope := .resolve ⟨none, []⟩ podsQuota [⟨"ns", Table.empty⟩]

private def podsAsked : KeySet ResourceName := .ofList [.pods]

private def podsTold (usage : ResourceList) : Snapshot :=
  ⟨.recomputed, usage, Table.ofList [("ns", usage)], none⟩

private def onePodRead : Aggregation (.ofTracked []) Table.empty 15000 where
  server := somePods 1
  quota := podsQuota
  scope := podsScope
  resources := podsAsked
  now := ⟨0, ⟨0, 0⟩⟩
  deadline := 8000
  elapsed := 0
  snapshot := podsTold (.ofPairs [(.pods, .one)])
  taken := by decide +kernel

private def noPodRead : Aggregation (.ofTracked []) Table.empty 15000 where
  server := somePods 0
  quota := podsQuota
  scope := podsScope
  resources := podsAsked
  now := ⟨1000, ⟨1, 0⟩⟩
  deadline := 9000
  elapsed := 0
  snapshot := podsTold Table.empty
  taken := by decide +kernel

/-- The gauges still show the pod when it is gone. -/
theorem not_isCurrent_podGone : ¬ noPodRead.IsCurrent [onePodRead] := by
  intro hcurrent
  have hshown : (reported ([onePodRead] ++ [noPodRead])).totalUsage.get?
      [noPodRead.quota.name, ResourceName.pods.text] = some .one := by
    decide +kernel
  have hone := hcurrent.total .pods (by decide +kernel) .one hshown
  exact absurd hone (by decide +kernel)

end Aggregation

end SharedQuota
