import Road7.ClientAffinity
import Road7.Rotation

namespace Road7

/-- A client keeps its answer, or goes to the url that has come to the list. -/
def StaysOrJoins (before after : Except Panic (Option Str)) (url : Str) : Prop :=
  after = before ∨ after = .ok (some url)

/-- Hash functions that give every text one number. -/
def constantHashers (n : Nat) : Hashers := ⟨fun _ => n, fun _ => leBytes 32 n⟩

theorem constantHashers_sized {n : Nat} (h : n < 2 ^ 64) : (constantHashers n).Sized :=
  ⟨fun _ => h, fun _ => length_leBytes 32 n⟩

namespace LoadBalancer

variable {lb lb' : LoadBalancer} {hs : Hashers} {ip url : Str} {urls : List Str}

theorem hashOf_constantHashers (halg : lb.algorithm = .consistentHashing) {n : Nat}
    (h : n < 2 ^ 64) (ip : Str) : lb.hashOf (constantHashers n) ip = n := by
  unfold hashOf
  rw [halg]
  exact fromLeBytes8_leBytes h

theorem hashedUrl_of_getElem? {u : Str}
    (h : urls[lb.hashOf hs ip % urls.length]? = some u) :
    lb.hashedUrl hs ip urls = .ok (some u) := by
  have hlt := (List.getElem?_eq_some_iff.mp h).1
  unfold hashedUrl
  rw [if_neg (by omega)]
  exact indexUrl_some.mpr h

/-- Where all urls are one, the number of urls makes no difference between them. -/
theorem staysOrJoins_of_alike (h : ∀ u ∈ urls, ∀ u' ∈ urls, u = u') :
    StaysOrJoins (lb.hashedUrl hs ip urls) (lb'.hashedUrl hs ip (urls ++ [url])) url := by
  have hlt : lb'.hashOf hs ip % (urls ++ [url]).length < (urls ++ [url]).length := by
    apply Nat.mod_lt
    simp
  obtain ⟨u, hu⟩ : ∃ u, (urls ++ [url])[lb'.hashOf hs ip % (urls ++ [url]).length]? = some u :=
    ⟨_, List.getElem?_eq_getElem hlt⟩
  rw [hashedUrl_of_getElem? hu]
  rcases List.mem_append.mp (List.mem_of_getElem? hu) with hold | hnew
  · have hpos := List.length_pos_of_mem hold
    have hlt' := Nat.mod_lt (lb.hashOf hs ip) hpos
    obtain ⟨u', hu'⟩ : ∃ u', urls[lb.hashOf hs ip % urls.length]? = some u' :=
      ⟨_, List.getElem?_eq_getElem hlt'⟩
    rw [hashedUrl_of_getElem? hu', h u hold u' (List.mem_of_getElem? hu')]
    exact .inl rfl
  · rw [List.mem_singleton.mp hnew]
    exact .inr rfl

/-- A hash one round and an index past a url that is followed by another one: without the new url
it falls on the one that follows, with it on the first. -/
theorem moves_of_change (halg : lb.algorithm = .consistentHashing)
    (halg' : lb'.algorithm = .consistentHashing) (hlen : urls.length < 2 ^ 63) (ip url : Str)
    {j : Nat} {c d : Str} (hc : urls[j]? = some c) (hd : urls[(j + 1) % urls.length]? = some d) :
    (constantHashers (j + (urls.length + 1))).Sized ∧
      lb.hashedUrl (constantHashers (j + (urls.length + 1))) ip urls = .ok (some d) ∧
      lb'.hashedUrl (constantHashers (j + (urls.length + 1))) ip (urls ++ [url]) =
        .ok (some c) := by
  have hj : j < urls.length := (List.getElem?_eq_some_iff.mp hc).1
  have hsmall : j + (urls.length + 1) < 2 ^ 64 := by omega
  refine ⟨constantHashers_sized hsmall, ?_, ?_⟩
  · apply hashedUrl_of_getElem?
    rw [hashOf_constantHashers halg hsmall]
    have hround : j + (urls.length + 1) = j + 1 + urls.length := by omega
    rwa [hround, Nat.add_mod_right]
  · apply hashedUrl_of_getElem?
    rw [hashOf_constantHashers halg' hsmall, List.length_append, List.length_singleton,
      Nat.add_mod_right, Nat.mod_eq_of_lt (by omega), List.getElem?_append_left hj]
    exact hc

end LoadBalancer

/-- When a url is added to the list that serves a path, no client moves between the old urls,
whatever the hash function, exactly when the old list has no two different urls. -/
theorem backend_added_iff {lb lb' : LoadBalancer} {path key ip url : Str} {urls : List Str}
    {order order' : List (Sigma (fun _ : Str => List Str))}
    (halg : lb.algorithm = .consistentHashing) (halg' : lb'.algorithm = .consistentHashing)
    (hlen : urls.length < 2 ^ 63)
    (hserved : LoadBalancer.servingEntry path order = some ⟨key, urls⟩)
    (hserved' : LoadBalancer.servingEntry path order' = some ⟨key, urls ++ [url]⟩) :
    (∀ hs : Hashers, hs.Sized → ∀ draw draw' st st',
      StaysOrJoins (lb.getTargetIn hs draw path (some ip) order st).2
        (lb'.getTargetIn hs draw' path (some ip) order' st').2 url) ↔
      ∀ u ∈ urls, ∀ u' ∈ urls, u = u' := by
  have hbefore : ∀ hs draw st, (lb.getTargetIn hs draw path (some ip) order st).2 =
      lb.hashedUrl hs ip urls := by
    intro hs draw st
    rw [LoadBalancer.Hashes.getTargetIn (.inr halg), hserved, Option.elim_some]
  have hafter : ∀ hs draw st, (lb'.getTargetIn hs draw path (some ip) order' st).2 =
      lb'.hashedUrl hs ip (urls ++ [url]) := by
    intro hs draw st
    rw [LoadBalancer.Hashes.getTargetIn (.inr halg'), hserved', Option.elim_some]
  constructor
  · intro h u hu u' hu'
    by_contra hne
    obtain ⟨j, c, d, hc, hd, hcurl, hdc⟩ := exists_change (x := url) hu hu' hne
    obtain ⟨hsized, hfrom, hto⟩ := LoadBalancer.moves_of_change halg halg' hlen ip url hc hd
    have hstays := h _ hsized 0 0 BalancerState.empty BalancerState.empty
    rw [hbefore, hafter, hfrom, hto] at hstays
    rcases hstays with hsame | hjoined
    · exact hdc (Option.some.inj (Except.ok.inj hsame)).symm
    · exact hcurl (Option.some.inj (Except.ok.inj hjoined))
  · intro h hs _ draw draw' st st'
    rw [hbefore, hafter]
    exact LoadBalancer.staysOrJoins_of_alike h

theorem backend_added_iff_first : ∃ lb lb' : LoadBalancer,
    LoadBalancer.new (AList.singleton "/api".toList ["http://a:1".toList]) .consistentHashing none =
      .ok lb ∧
    LoadBalancer.new (AList.singleton "/api".toList ["http://a:1".toList, "http://b:1".toList])
      .consistentHashing none = .ok lb' ∧
    ∀ hs : Hashers, hs.Sized → ∀ draw draw' st st',
      StaysOrJoins
        (lb.getTargetIn hs draw "/api/users".toList (some "10.0.0.1:50000".toList)
          lb.targets.entries st).2
        (lb'.getTargetIn hs draw' "/api/users".toList (some "10.0.0.1:50000".toList)
          lb'.targets.entries st').2 "http://b:1".toList := by
  refine ⟨_, _, rfl, rfl, (backend_added_iff rfl rfl (by decide) rfl rfl).mpr ?_⟩
  intro u hu u' hu'
  rw [List.mem_singleton.mp hu, List.mem_singleton.mp hu']

/-- With a third url the client with hash 3 goes from the second to the first. -/
theorem third_backend_moves_client : ∃ lb lb' : LoadBalancer,
    LoadBalancer.new (AList.singleton "/api".toList ["http://a:1".toList, "http://b:1".toList])
      .consistentHashing none = .ok lb ∧
    LoadBalancer.new (AList.singleton "/api".toList
      ["http://a:1".toList, "http://b:1".toList, "http://c:1".toList]) .consistentHashing none =
      .ok lb' ∧
    (constantHashers 3).Sized ∧
    (lb.getTargetIn (constantHashers 3) 0 "/api/users".toList (some "10.0.0.1:50000".toList)
      lb.targets.entries BalancerState.empty).2 = .ok (some "http://b:1".toList) ∧
    (lb'.getTargetIn (constantHashers 3) 0 "/api/users".toList (some "10.0.0.1:50000".toList)
      lb'.targets.entries BalancerState.empty).2 = .ok (some "http://a:1".toList) :=
  ⟨_, _, rfl, rfl, constantHashers_sized (by decide), rfl, rfl⟩

end Road7
