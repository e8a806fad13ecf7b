import Mathlib.Algebra.Order.Field.Rat
import Road7.ClientAffinity
import Road7.Connections
import Road7.LeastLoaded
import Road7.RoundRobin

namespace Road7

namespace LoadBalancer

/-- The weights by which an algorithm levels the connections of a key; plain connections count
once. -/
def LevelsBy (lb : LoadBalancer) (key : Str) (urls : List Str) (weights : List Nat) : Prop :=
  match lb.algorithm with
  | .leastConnections => weights = List.replicate urls.length 1
  | .weightedLeastConnections => lb.weights.lookup key = some weights ∧
      urls.length ≤ weights.length ∧ ∀ w ∈ weights, 1 ≤ w
  | _ => False

/-- A key with urls that are all different and that no other key has. -/
structure OwnUrls (lb : LoadBalancer) (key : Str) (urls : List Str) : Prop where
  listed : lb.targets.lookup key = some urls
  distinct : urls.Nodup
  apart : ∀ key' urls', lb.targets.lookup key' = some urls' → key' ≠ key →
    ∀ url ∈ urls, url ∉ urls'

/-- The answers of calls one after the other. -/
def answers (lb : LoadBalancer) (hs : Hashers) :
    List BalancerCall → BalancerState → List (Except Panic (Option Str))
  | [], _ => []
  | c :: cs, st => (lb.call hs st c).2 :: answers lb hs cs (lb.call hs st c).1

def afterCalls (lb : LoadBalancer) (hs : Hashers) (calls : List BalancerCall) : BalancerState :=
  calls.foldl (fun st c => (lb.call hs st c).1) BalancerState.empty

/-- How many of the calls to a new balancer have been answered with a url. -/
def picks (lb : LoadBalancer) (hs : Hashers) (calls : List BalancerCall) (url : Str) : Nat :=
  (lb.answers hs calls BalancerState.empty).countP (fun a => a.toOption.join = some url)

variable {lb : LoadBalancer} {key : Str} {urls : List Str} {weights : List Nat}
  {st : BalancerState}

theorem LevelsBy.countsConnections (h : lb.LevelsBy key urls weights) :
    lb.CountsConnections := by
  unfold LevelsBy at h
  split at h
  next halg => exact .inl halg
  next halg => exact .inr halg
  next => exact h.elim

theorem LevelsBy.length_le (h : lb.LevelsBy key urls weights) : urls.length ≤ weights.length := by
  unfold LevelsBy at h
  split at h
  next => simp [h]
  next => exact h.2.1
  next => exact h.elim

/-- The scan of `LeastConnections` is a scan for the least number of connections. -/
theorem leastConnected_eq_scanLeast (counted : List (Str × Nat)) (min : Nat) (best : Option Str) :
    leastConnected counted min best = scanLeast counted (WithTop.some min) best := by
  induction counted generalizing min best with
  | nil => rfl
  | cons e counted ih =>
    simp only [leastConnected, scanLeast, ih, WithTop.coe_lt_coe]

/-- A url with its number of connections for its weight. -/
def quotientOf (e : Str × Nat × Nat) : Str × ℚ := (e.1, e.2.1 / e.2.2)

/-- The start value of the scan for the least quotient. -/
def quotientBound (min : Option (Nat × Nat)) : WithTop ℚ :=
  min.elim ⊤ (fun m => WithTop.some (m.1 / m.2 : ℚ))

theorem quotient_le_iff {a b c d : Nat} (hb : 1 ≤ b) (hd : 1 ≤ d) :
    (a / b : ℚ) ≤ c / d ↔ a * d ≤ c * b := by
  rw [div_le_div_iff₀ (by exact_mod_cast hb) (by exact_mod_cast hd)]
  exact_mod_cast Iff.rfl

theorem scoreBelow_iff {count weight : Nat} {min : Option (Nat × Nat)} (hw : 1 ≤ weight)
    (hmin : ∀ m, min = some m → 1 ≤ m.2) : scoreBelow count weight min = true ↔
      WithTop.some (count / weight : ℚ) < quotientBound min := by
  unfold scoreBelow quotientBound
  cases min with
  | none =>
    simp only [Option.elim_none, WithTop.coe_lt_top, iff_true]
    simp
    omega
  | some m =>
    have hm := hmin m rfl
    rw [Option.elim_some, WithTop.coe_lt_coe, ← not_le, quotient_le_iff hm hw, not_le]
    simp
    omega

/-- With positive weights the scan of `WeightedLeastConnections` is one for the least quotient. -/
theorem leastScored_eq_scanLeast (scored : List (Str × Nat × Nat))
    (hpos : ∀ e ∈ scored, 1 ≤ e.2.2) {min : Option (Nat × Nat)}
    (hmin : ∀ m, min = some m → 1 ≤ m.2) (best : Option Str) :
    leastScored scored min best =
      scanLeast (scored.map quotientOf) (quotientBound min) best := by
  induction scored generalizing min best with
  | nil => rfl
  | cons e scored ih =>
    obtain ⟨url, count, weight⟩ := e
    have hw : 1 ≤ weight := hpos _ List.mem_cons_self
    have hrest : ∀ e ∈ scored, 1 ≤ e.2.2 := fun e he => hpos e (List.mem_cons_of_mem _ he)
    have hnext : ∀ m, some (count, weight) = some m → 1 ≤ m.2 := by
      rintro m heq
      cases heq
      exact hw
    simp only [leastScored, List.map_cons, quotientOf, scanLeast]
    by_cases hbelow : scoreBelow count weight min = true
    · rw [if_pos hbelow, if_pos ((scoreBelow_iff hw hmin).mp hbelow), ih hrest hnext]
      rfl
    · rw [if_neg hbelow, if_neg (fun h => hbelow ((scoreBelow_iff hw hmin).mpr h)), ih hrest hmin]

/-- The urls of a key with their weights. -/
def weightedUrls (urls : List Str) (weights : List Nat) : Set (Str × Nat) :=
  { e | e ∈ urls.zip weights }

/-- The answer with a url whose connections are counted, while there is room for one more. -/
def counted (count : Nat) (url : Str) : Except Panic (Option Str) :=
  if count < usizeMax then .ok (some url) else .error .overflow

theorem countConnection_answer (connections : StrMap Nat) (url : Str) (st : BalancerState) :
    (countConnection connections url st).2 =
      some (counted ((connections.lookup url).getD 0) url) := by
  unfold counted
  split
  next hlt => rw [countConnection_of_lt hlt]
  next hge => rw [countConnection_of_ge (Nat.not_lt.mp hge)]

/-- What the arm of a levelling algorithm comes to: a least loaded url of its key, or nothing when
none is below the start of its scan. -/
def PicksLeast (urls : List Str) (weights : List Nat) (st : BalancerState)
    (answer : Option (Except Panic (Option Str))) : Prop :=
  (∃ e ∈ urls.zip weights,
    LeastLoaded (weightedUrls urls weights) Prod.snd (fun e => st.count e.1) e ∧
      answer = some (counted (st.count e.1) e.1)) ∨
  ((∀ url ∈ urls, usizeMax ≤ st.count url) ∧ answer = none)

theorem zip_replicate_length {α β : Type} (l : List α) (b : β) :
    l.zip (List.replicate l.length b) = l.map (fun a => (a, b)) := by
  induction l with
  | nil => rfl
  | cons a l ih => simp [List.replicate_succ, ih]

/-- `LeastConnections` finds no count below its start, or a url with the least of them. -/
theorem leastConnections_cases (urls : List Str) (st : BalancerState) :
    ((∀ url ∈ urls, usizeMax ≤ st.count url) ∧ (leastConnections urls st).2 = none) ∨
      ∃ url ∈ urls, st.count url < usizeMax ∧ (∀ u ∈ urls, st.count url ≤ st.count u) ∧
        (leastConnections urls st).2 = some (.ok (some url)) := by
  have hcounted : urls.map (fun url =>
      (url, ((ensureConnections urls st.connections).lookup url).getD 0)) =
        urls.map (fun url => (url, st.count url)) := by
    simp only [lookup_ensureConnections]
    rfl
  unfold leastConnections
  dsimp only
  rw [hcounted, leastConnected_eq_scanLeast]
  have hscan := scanLeast_spec (urls.map (fun url => (url, st.count url)))
    (WithTop.some usizeMax) none
  rcases hscan with ⟨hall, hnone⟩ | ⟨url, score, hmem, hlt, hleast, hsome⟩
  · rw [hnone]
    refine .inl ⟨fun url hurl => ?_, rfl⟩
    exact WithTop.coe_le_coe.mp (hall _ (List.mem_map_of_mem hurl))
  · rw [hsome]
    obtain ⟨u, hu, heq⟩ := List.mem_map.mp hmem
    cases heq
    have hbelow : st.count url < usizeMax := WithTop.coe_lt_coe.mp hlt
    refine .inr ⟨url, hu, hbelow, fun u' hu' => hleast _ (List.mem_map_of_mem hu'), ?_⟩
    have hroom : ((ensureConnections urls st.connections).lookup url).getD 0 < usizeMax := by
      rw [lookup_ensureConnections]
      exact hbelow
    exact congrArg Prod.snd (countConnection_of_lt hroom)

theorem leastConnections_picksLeast (urls : List Str) (st : BalancerState) :
    PicksLeast urls (List.replicate urls.length 1) st (leastConnections urls st).2 := by
  unfold PicksLeast weightedUrls
  rw [zip_replicate_length]
  rcases leastConnections_cases urls st with hnone | ⟨url, hurl, hlt, hleast, hsome⟩
  · exact .inr hnone
  · refine .inl ⟨(url, 1), List.mem_map_of_mem hurl, ?_, by rw [hsome, counted, if_pos hlt]⟩
    intro e he
    obtain ⟨u, hu, rfl⟩ := List.mem_map.mp he
    exact Nat.mul_le_mul_right 1 (hleast u hu)

theorem weightedLeastConnections_picksLeast (hweights : lb.weights.lookup key = some weights)
    (hlen : urls.length ≤ weights.length) (hpos : ∀ w ∈ weights, 1 ≤ w) (st : BalancerState) :
    PicksLeast urls weights st (lb.weightedLeastConnections key urls st).2 := by
  have hscored : (urls.zip weights).map (fun e =>
      (e.1, ((ensureConnections urls st.connections).lookup e.1).getD 0, e.2)) =
        (urls.zip weights).map (fun e => (e.1, st.count e.1, e.2)) := by
    simp only [lookup_ensureConnections]
    rfl
  have hone : ∀ e ∈ urls.zip weights, 1 ≤ e.2 := fun e he => hpos e.2 (List.of_mem_zip he).2
  have hall : ∀ e ∈ (urls.zip weights).map (fun e => (e.1, st.count e.1, e.2)), 1 ≤ e.2.2 := by
    intro e he
    obtain ⟨e', he', rfl⟩ := List.mem_map.mp he
    exact hone e' he'
  unfold weightedLeastConnections PicksLeast weightedUrls
  rw [hweights]
  dsimp only
  rw [if_neg (Nat.not_lt.mpr hlen), hscored,
    leastScored_eq_scanLeast _ hall (fun _ h => by cases h), List.map_map]
  rcases scanLeast_spec ((urls.zip weights).map
      (quotientOf ∘ fun e => (e.1, st.count e.1, e.2))) (quotientBound none) none with
    ⟨htop, hnone⟩ | ⟨url, score, hmem, _, hleast, hsome⟩
  · rw [hnone]
    refine .inr ⟨fun url hurl => ?_, rfl⟩
    obtain ⟨i, hi, rfl⟩ := List.getElem_of_mem hurl
    have hzip : (urls[i], weights[i]) ∈ urls.zip weights := by
      rw [List.mem_iff_getElem]
      exact ⟨i, by simp; omega, by simp⟩
    have hle := htop _ (List.mem_map_of_mem hzip)
    exact absurd hle (not_le.mpr (WithTop.coe_lt_top _))
  · rw [hsome]
    obtain ⟨e, he, heq⟩ := List.mem_map.mp hmem
    cases heq
    refine .inl ⟨e, he, ?_, ?_⟩
    · intro e' he'
      exact (quotient_le_iff (hone e he) (hone e' he')).mp (hleast _ (List.mem_map_of_mem he'))
    · refine (countConnection_answer _ e.1 st).trans ?_
      rw [lookup_ensureConnections]
      rfl

theorem LevelsBy.pick (h : lb.LevelsBy key urls weights) (hs : Hashers) (draw : Nat)
    (clientIp : Option Str) (st : BalancerState) :
    PicksLeast urls weights st (lb.pick hs draw clientIp key urls st).2 := by
  unfold LevelsBy at h
  unfold LoadBalancer.pick
  split at h
  next halg =>
    subst h
    rw [halg]
    exact leastConnections_picksLeast urls st
  next halg =>
    obtain ⟨hweights, hlen, hpos⟩ := h
    rw [halg]
    exact weightedLeastConnections_picksLeast hweights hlen hpos st
  next => exact h.elim

theorem CountsConnections.mem_of_pick (h : lb.CountsConnections) {hs : Hashers} {draw : Nat}
    {clientIp : Option Str} {url : Str} {st' : BalancerState}
    (hpick : lb.pick hs draw clientIp key urls st = (st', some (.ok (some url)))) : url ∈ urls := by
  have hcan := canPick_of_pick hpick
  unfold CanPick at hcan
  rcases h with halg | halg
  · rw [halg] at hcan
    exact hcan
  · rw [halg] at hcan
    obtain ⟨_, _, _, _, hzip, _⟩ := hcan
    exact (List.of_mem_zip hzip).1

/-- An arm that control falls out of leaves the numbers of connections. -/
theorem LevelsBy.count_of_fall (h : lb.LevelsBy key urls weights) {hs : Hashers} {draw : Nat}
    {clientIp : Option Str} {key' : Str} {urls' : List Str} {st' : BalancerState}
    (hpick : lb.pick hs draw clientIp key' urls' st = (st', none)) : st'.count = st.count := by
  have hcounts := h.countsConnections.pick hs draw clientIp key' urls' st
  rw [hpick] at hcounts
  funext url
  exact hcounts url

/-- A call that the key answers is answered with one of its least loaded urls, and a call that it
does not answer with none of its urls. -/
theorem LevelsBy.getTargetIn (h : lb.LevelsBy key urls weights) (hown : lb.OwnUrls key urls)
    (hs : Hashers) (draw : Nat) (path : Str) (clientIp : Option Str)
    (order : List (Sigma (fun _ : Str => List Str)))
    (horder : ∀ e ∈ order, lb.targets.lookup e.1 = some e.2) (st : BalancerState) :
    (lb.answeringKey hs draw path clientIp order st = some key → ∃ e ∈ urls.zip weights,
      LeastLoaded (weightedUrls urls weights) Prod.snd (fun e => st.count e.1) e ∧
        (lb.getTargetIn hs draw path clientIp order st).2 = counted (st.count e.1) e.1) ∧
    (lb.answeringKey hs draw path clientIp order st ≠ some key →
      ∀ url ∈ urls, (lb.getTargetIn hs draw path clientIp order st).2 ≠ .ok (some url)) := by
  induction order generalizing st with
  | nil => simp [answeringKey, LoadBalancer.getTargetIn]
  | cons entry order ih =>
    obtain ⟨key', urls'⟩ := entry
    have hlisted : lb.targets.lookup key' = some urls' := horder _ List.mem_cons_self
    have hrest := ih (fun e he => horder e (List.mem_cons_of_mem _ he))
    simp only [answeringKey, LoadBalancer.getTargetIn]
    by_cases hpre : key'.isPrefixOf path = true
    · rw [if_pos hpre, if_pos hpre]
      cases hpick : lb.pick hs draw clientIp key' urls' st with
      | mk st' answer =>
        cases answer with
        | none =>
          have hfall := hrest st'
          rw [h.count_of_fall hpick] at hfall
          exact hfall
        | some answer =>
          refine ⟨fun hkey => ?_, fun hkey url hurl heq => ?_⟩
          · cases hkey
            cases hlisted.symm.trans hown.listed
            have hleast := h.pick hs draw clientIp st
            rw [hpick] at hleast
            rcases hleast with ⟨e, he, hleast, hsome⟩ | ⟨_, hnone⟩
            · exact ⟨e, he, hleast, Option.some.inj hsome⟩
            · cases hnone
          · have hne : key' ≠ key := fun heq => hkey (congrArg some heq)
            dsimp only at heq
            rw [heq] at hpick
            exact hown.apart key' urls' hlisted hne url hurl (h.countsConnections.mem_of_pick hpick)
    · rw [if_neg hpre, if_neg hpre]
      exact hrest st

/-- Each url of the list has one weight. -/
theorem LevelsBy.eq_of_fst (h : lb.LevelsBy key urls weights) (hdistinct : urls.Nodup)
    {e e' : Str × Nat} (he : e ∈ urls.zip weights) (he' : e' ∈ urls.zip weights)
    (hurl : e.1 = e'.1) : e = e' := by
  have hfst : (urls.zip weights).map Prod.fst = urls := List.map_fst_zip h.length_le
  exact List.inj_on_of_nodup_map (hfst.symm ▸ hdistinct) he he' hurl

/-- A call leaves the numbers of connections of a key fair. -/
theorem LevelsBy.fair_call (h : lb.LevelsBy key urls weights) (hown : lb.OwnUrls key urls)
    (hs : Hashers) {c : BalancerCall} (horder : IterationOf lb.targets c.order)
    (hfair : FairlyLoaded (weightedUrls urls weights) Prod.snd (fun e => st.count e.1)) :
    FairlyLoaded (weightedUrls urls weights) Prod.snd
      (fun e => (lb.call hs st c).1.count e.1) := by
  have hlisted : ∀ e ∈ c.order, lb.targets.lookup e.1 = some e.2 :=
    fun e he => AList.mem_lookup_iff.mpr (horder.mem_iff.mp he)
  have hcounts := h.countsConnections.getTargetIn hs c.draw c.path c.clientIp c.order st
  obtain ⟨hfor, hother⟩ := h.getTargetIn hown hs c.draw c.path c.clientIp c.order hlisted st
  unfold LoadBalancer.call
  by_cases hkey : lb.answeringKey hs c.draw c.path c.clientIp c.order st = some key
  · obtain ⟨e, he, hleast, hanswer⟩ := hfor hkey
    rw [hanswer, counted] at hcounts
    by_cases hroom : st.count e.1 < usizeMax
    · rw [if_pos hroom] at hcounts
      refine hfair.add_one hleast (fun e' he' => ?_)
      rw [hcounts e'.1]
      by_cases heq : e' = e
      · subst heq
        simp [Except.toOption]
      · have hne : e.1 ≠ e'.1 := fun hurl => heq (h.eq_of_fst hown.distinct he' he hurl.symm)
        simp [Except.toOption, hne, heq]
    · rw [if_neg hroom] at hcounts
      exact hfair.congr fun e' _ => hcounts e'.1
  · refine hfair.congr (fun e he => ?_)
    have hnot := hother hkey e.1 (List.of_mem_zip he).1
    rw [hcounts e.1, if_neg, Nat.add_zero]
    intro heq
    refine hnot ?_
    cases hanswer : (lb.getTargetIn hs c.draw c.path c.clientIp c.order st).2 with
    | error p => simp [hanswer, Except.toOption] at heq
    | ok answer => simpa [hanswer, Except.toOption] using heq

/-- The numbers of connections of a key are fair after any calls. -/
theorem LevelsBy.fair_calls (h : lb.LevelsBy key urls weights) (hown : lb.OwnUrls key urls)
    (hs : Hashers) {calls : List BalancerCall}
    (horder : ∀ c ∈ calls, IterationOf lb.targets c.order) :
    FairlyLoaded (weightedUrls urls weights) Prod.snd
      (fun e => (lb.afterCalls hs calls).count e.1) := by
  have hstart : FairlyLoaded (weightedUrls urls weights) Prod.snd
      (fun e => BalancerState.empty.count e.1) := fairlyLoaded_of_unloaded (fun _ _ => rfl)
  unfold afterCalls
  generalize BalancerState.empty = st at hstart ⊢
  induction calls generalizing st with
  | nil => exact hstart
  | cons c calls ih =>
    exact ih (fun c' hc => horder c' (List.mem_cons_of_mem _ hc)) _
      (h.fair_call hown hs (horder c List.mem_cons_self) hstart)

/-- A run counts one connection to a url for each of its calls that is answered with it. -/
theorem CountsConnections.count_afterCalls (h : lb.CountsConnections) (hs : Hashers)
    (calls : List BalancerCall) (url : Str) :
    (lb.afterCalls hs calls).count url = lb.picks hs calls url := by
  have hrun : ∀ st, (calls.foldl (fun st c => (lb.call hs st c).1) st).count url = st.count url +
      (lb.answers hs calls st).countP (fun a => a.toOption.join = some url) := by
    induction calls with
    | nil => exact fun st => rfl
    | cons c calls ih =>
      intro st
      have hcall := h.getTargetIn hs c.draw c.path c.clientIp c.order st url
      rw [List.foldl_cons, ih, answers, List.countP_cons]
      unfold LoadBalancer.call
      rw [hcall]
      simp only [decide_eq_true_eq]
      omega
  have hall := hrun BalancerState.empty
  have hnone : BalancerState.empty.count url = 0 := rfl
  rw [hnone, Nat.zero_add] at hall
  exact hall

/-- The first key that a path begins with answers the calls for it, as long as one of its urls is
below the start of the scan. -/
theorem LevelsBy.answeringKey_of_serving (h : lb.LevelsBy key urls weights) (hs : Hashers)
    (draw : Nat) {path : Str} (clientIp : Option Str)
    {order : List (Sigma (fun _ : Str => List Str))}
    (hserving : servingEntry path order = some ⟨key, urls⟩)
    (hbelow : ∃ url ∈ urls, st.count url < usizeMax) :
    lb.answeringKey hs draw path clientIp order st = some key := by
  induction order with
  | nil => simp [servingEntry] at hserving
  | cons entry order ih =>
    obtain ⟨key', urls'⟩ := entry
    unfold servingEntry at hserving ih
    rw [List.find?_cons] at hserving
    simp only [answeringKey]
    cases hpre : key'.isPrefixOf path with
    | true =>
      simp only [hpre, Option.some.injEq] at hserving
      cases hserving
      have hleast := h.pick hs draw clientIp st
      cases hpick : lb.pick hs draw clientIp key urls st with
      | mk st' answer =>
        rw [hpick] at hleast
        rcases hleast with ⟨e, _, _, hsome⟩ | ⟨hall, _⟩
        · dsimp only at hsome
          rw [hsome, if_pos rfl]
        · obtain ⟨url, hurl, hlt⟩ := hbelow
          have hge := hall url hurl
          omega
    | false =>
      simp only [hpre] at hserving
      simpa using ih hserving

/-- After any calls the picks of the urls of a key are fair to their weights, and each call that the
key answers comes to a url that has been picked least for its weight, and is answered with it while
it has been picked fewer times than a `usize` counts. The key answers the calls for it as long as
one of its urls has been. -/
theorem picks_fair (h : lb.LevelsBy key urls weights) (hown : lb.OwnUrls key urls) (hs : Hashers)
    (calls : List BalancerCall) (horder : ∀ c ∈ calls, IterationOf lb.targets c.order) :
    FairlyLoaded (weightedUrls urls weights) Prod.snd (fun e => lb.picks hs calls e.1) ∧
    ∀ c : BalancerCall, IterationOf lb.targets c.order →
      (lb.answeringKey hs c.draw c.path c.clientIp c.order (lb.afterCalls hs calls) = some key →
        ∃ e ∈ urls.zip weights,
          LeastLoaded (weightedUrls urls weights) Prod.snd (fun e => lb.picks hs calls e.1) e ∧
            (lb.call hs (lb.afterCalls hs calls) c).2 = counted (lb.picks hs calls e.1) e.1) ∧
      (servingEntry c.path c.order = some ⟨key, urls⟩ →
        (∃ url ∈ urls, lb.picks hs calls url < usizeMax) →
          lb.answeringKey hs c.draw c.path c.clientIp c.order (lb.afterCalls hs calls) =
            some key) := by
  have hpicks : lb.picks hs calls = (lb.afterCalls hs calls).count :=
    funext fun url => (h.countsConnections.count_afterCalls hs calls url).symm
  rw [hpicks]
  refine ⟨h.fair_calls hown hs horder, fun c hc => ⟨fun hkey => ?_, fun hserving hbelow => ?_⟩⟩
  · have hlisted : ∀ e ∈ c.order, lb.targets.lookup e.1 = some e.2 :=
      fun e he => AList.mem_lookup_iff.mpr (hc.mem_iff.mp he)
    exact (h.getTargetIn hown hs c.draw c.path c.clientIp c.order hlisted _).1 hkey
  · exact h.answeringKey_of_serving hs c.draw c.clientIp hserving hbelow

theorem ownUrls_singleton (h : lb.targets = AList.singleton key urls) (hdistinct : urls.Nodup) :
    lb.OwnUrls key urls := by
  refine ⟨?_, hdistinct, fun key' urls' hlisted hne => ?_⟩
  · rw [h]
    exact List.dlookup_cons_eq _ _ _
  · have hkeys : key' ∈ (AList.singleton key urls : StrMap (List Str)).keys :=
      AList.lookup_isSome.mp (by rw [← h, hlisted]; rfl)
    exact absurd (by simpa using hkeys) hne

theorem levelsBy_plain (halg : lb.algorithm = .leastConnections) (key : Str) (urls : List Str) :
    lb.LevelsBy key urls (List.replicate urls.length 1) := by
  unfold LevelsBy
  rw [halg]

theorem levelsBy_weighted (halg : lb.algorithm = .weightedLeastConnections)
    (hweights : lb.weights.lookup key = some weights) (hlen : urls.length ≤ weights.length)
    (hpos : ∀ w ∈ weights, 1 ≤ w) : lb.LevelsBy key urls weights := by
  unfold LevelsBy
  rw [halg]
  exact ⟨hweights, hlen, hpos⟩

/-- Three calls to one of two backends and one to the other, by weights of three to one. -/
theorem picks_fair_three_to_one : ∃ lb call,
    LoadBalancer.new (AList.singleton "/api".toList ["http://a:1".toList, "http://b:1".toList])
      .weightedLeastConnections (some (AList.singleton "/api".toList [3, 1])) = .ok lb ∧
    IterationOf lb.targets call.order ∧
    lb.picks ⟨fun _ => 0, id⟩ (List.replicate 4 call) "http://a:1".toList = 3 ∧
    FairlyLoaded (weightedUrls ["http://a:1".toList, "http://b:1".toList] [3, 1]) Prod.snd
      (fun e => lb.picks ⟨fun _ => 0, id⟩ (List.replicate 4 call) e.1) := by
  have hnew : ∃ lb call,
      LoadBalancer.new (AList.singleton "/api".toList ["http://a:1".toList, "http://b:1".toList])
        .weightedLeastConnections (some (AList.singleton "/api".toList [3, 1])) = .ok lb ∧
      lb.algorithm = .weightedLeastConnections ∧
      lb.targets =
        AList.singleton "/api".toList ["http://a:1".toList, "http://b:1".toList] ∧
      lb.weights.lookup "/api".toList = some [3, 1] ∧ IterationOf lb.targets call.order ∧
      lb.picks ⟨fun _ => 0, id⟩ (List.replicate 4 call) "http://a:1".toList = 3 :=
    ⟨_, ⟨"/api/users".toList, none, 0,
        [⟨"/api".toList, ["http://a:1".toList, "http://b:1".toList]⟩]⟩,
      rfl, rfl, rfl, rfl, List.Perm.refl _, rfl⟩
  obtain ⟨lb, call, hnew, halg, htargets, hweights, horder, hpicks⟩ := hnew
  refine ⟨lb, call, hnew, horder, hpicks, ?_⟩
  exact (picks_fair (levelsBy_weighted halg hweights (by simp) (by simp))
    (ownUrls_singleton htargets (by simp)) ⟨fun _ => 0, id⟩ _
    (fun c hc => List.eq_of_mem_replicate hc ▸ horder)).1

/-- With every count at the start of its scan `LeastConnections` finds nothing. -/
theorem leastConnections_full (hfull : ∀ url ∈ urls, usizeMax ≤ st.count url) :
    (leastConnections urls st).2 = none := by
  rcases leastConnections_cases urls st with ⟨_, hnone⟩ | ⟨url, hurl, hlt, _⟩
  · exact hnone
  · have hge := hfull url hurl
    omega

theorem call_full (halg : lb.algorithm = .leastConnections) (hs : Hashers) {c : BalancerCall}
    (horder : c.order = [⟨key, urls⟩]) (hfull : ∀ url ∈ urls, usizeMax ≤ st.count url) :
    (lb.call hs st c).2 = .ok none := by
  have hnone := leastConnections_full hfull
  rw [LoadBalancer.call, horder]
  simp only [LoadBalancer.getTargetIn, LoadBalancer.pick, halg]
  split
  next =>
    generalize leastConnections urls st = result at hnone ⊢
    obtain ⟨st', answer⟩ := result
    cases hnone
    rfl
  next => rfl

/-- Calls for the only url of a key are all answered with it while it can be counted. -/
theorem LevelsBy.count_repeated {url : Str} (h : lb.LevelsBy key [url] [1])
    (hown : lb.OwnUrls key [url]) (hs : Hashers) {c : BalancerCall}
    (horder : IterationOf lb.targets c.order)
    (hserving : servingEntry c.path c.order = some ⟨key, [url]⟩) {n : Nat} (hn : n ≤ usizeMax) :
    (lb.afterCalls hs (List.replicate n c)).count url = n := by
  induction n with
  | zero => rfl
  | succ n ih =>
    have hcount := ih (Nat.le_of_succ_le hn)
    have hlisted : ∀ e ∈ c.order, lb.targets.lookup e.1 = some e.2 :=
      fun e he => AList.mem_lookup_iff.mpr (horder.mem_iff.mp he)
    have hbelow : ∃ u ∈ [url], (lb.afterCalls hs (List.replicate n c)).count u < usizeMax :=
      ⟨url, List.mem_cons_self, by omega⟩
    have hkey := h.answeringKey_of_serving hs c.draw c.clientIp hserving hbelow
    obtain ⟨e, he, _, hanswer⟩ := (h.getTargetIn hown hs c.draw c.path c.clientIp c.order hlisted
      (lb.afterCalls hs (List.replicate n c))).1 hkey
    have hcounts := h.countsConnections.getTargetIn hs c.draw c.path c.clientIp c.order
      (lb.afterCalls hs (List.replicate n c)) url
    have heq : e = (url, 1) := by simpa using he
    have hroom : (lb.afterCalls hs (List.replicate n c)).count url < usizeMax := by omega
    rw [hanswer, heq, counted, if_pos hroom, hcount] at hcounts
    rw [List.replicate_succ']
    unfold afterCalls at hcounts ⊢
    rw [List.foldl_append, List.foldl_cons, List.foldl_nil]
    simpa [Except.toOption, LoadBalancer.call] using hcounts

/-- The only backend has been picked as often as its connections can be counted, and the next call
has no answer. -/
theorem full_backend_unanswered : ∃ (lb : LoadBalancer) (call : BalancerCall),
    LoadBalancer.new (AList.singleton "/api".toList ["http://a:1".toList]) .leastConnections none =
      .ok lb ∧
    lb.LevelsBy "/api".toList ["http://a:1".toList] [1] ∧
    lb.OwnUrls "/api".toList ["http://a:1".toList] ∧ IterationOf lb.targets call.order ∧
    servingEntry call.path call.order = some ⟨"/api".toList, ["http://a:1".toList]⟩ ∧
    (lb.call ⟨fun _ => 0, id⟩
      (lb.afterCalls ⟨fun _ => 0, id⟩ (List.replicate usizeMax call)) call).2 = .ok none := by
  have hnew : ∃ (lb : LoadBalancer) (call : BalancerCall),
      LoadBalancer.new (AList.singleton "/api".toList ["http://a:1".toList]) .leastConnections
        none = .ok lb ∧
      lb.algorithm = .leastConnections ∧
      lb.targets = AList.singleton "/api".toList ["http://a:1".toList] ∧
      IterationOf lb.targets call.order ∧
      call.order = [⟨"/api".toList, ["http://a:1".toList]⟩] ∧
      servingEntry call.path call.order = some ⟨"/api".toList, ["http://a:1".toList]⟩ :=
    ⟨_, ⟨"/api/users".toList, none, 0, [⟨"/api".toList, ["http://a:1".toList]⟩]⟩,
      rfl, rfl, rfl, List.Perm.refl _, rfl, rfl⟩
  obtain ⟨lb, call, hnew, halg, htargets, horder, hentries, hserving⟩ := hnew
  have hlevels := levelsBy_plain halg "/api".toList ["http://a:1".toList]
  have hown : lb.OwnUrls "/api".toList ["http://a:1".toList] :=
    ownUrls_singleton htargets (by simp)
  refine ⟨lb, call, hnew, hlevels, hown, horder, hserving, ?_⟩
  have hcount := LevelsBy.count_repeated hlevels hown ⟨fun _ => 0, id⟩ horder hserving
    (Nat.le_refl usizeMax)
  refine call_full halg ⟨fun _ => 0, id⟩ hentries (fun url hurl => ?_)
  rw [List.mem_singleton.mp hurl]
  exact hcount.ge

end LoadBalancer

end Road7
