import Road7.PathWalk
import Road7.PlainProxy
import Road7.RequestStages

namespace Road7

def staticName : Str := "static".toList

/-- The paths that `proxy_request` answers before it looks for a static file. -/
def answeredPaths : List Str :=
  ["/health".toList, "/metrics".toList, "/rate-limiter-status".toList]

/-- What `File::open` and `read_to_end` find at what stands on the disk. -/
def DiskEntry.asFile : DiskEntry → StaticFile
  | .directory => .unreadable
  | .locked => .unopenable
  | .file contents => .contents contents

/-- The static files of a proxy that runs in a directory of a disk. -/
def Disk.files (disk : Disk) (cwd : Place) (path : Str) : StaticFile :=
  (disk.find cwd path).elim .missing DiskEntry.asFile

def StaticFile.opens : StaticFile → Bool
  | .missing => false
  | .unopenable => false
  | .unreadable => true
  | .contents _ => true

namespace Proxy

variable {proxy : Proxy} {env : Surroundings} {req : Request} {path : Str}

/-- The path that `serve_static_file` opens for a request, when it opens one. -/
def openedFile (proxy : Proxy) (env : Surroundings) (req : Request) : Option Str :=
  match proxy.validate req with
  | .going req =>
    let path := "./static".toList ++ req.uri.path
    if answeredPaths.contains req.uri.path then none
    else if (env.files path).opens then some path else none
  | _ => none

theorem openedFile_some (h : proxy.openedFile env req = some path) :
    proxy.validate req = .going req.bodyRead ∧ req.uri.path ∉ answeredPaths ∧
      path = "./static".toList ++ req.uri.path ∧ (env.files path).opens = true := by
  unfold openedFile at h
  split at h
  next req' hvalid =>
    obtain ⟨_, rfl⟩ := validate_going hvalid
    dsimp only at h
    split at h
    next => simp at h
    next hanswered =>
      split at h
      next hopens =>
        have hpath := Option.some.inj h
        subst hpath
        exact ⟨hvalid, fun hmem => hanswered (List.contains_iff_mem.mpr hmem), rfl, hopens⟩
      next => simp at h
  next => simp at h

/-- A request that has a file opened ends with it: with the contents, or with the panic of
reading a directory. -/
theorem receive_of_openedFile (h : proxy.openedFile env req = some path) :
    (∃ contents, env.files path = .contents contents ∧
      proxy.receive env req = .ended (.ownReply ⟨200, [], Body.ofBytes contents⟩)) ∨
    (env.files path = .unreadable ∧ proxy.receive env req = .ended (.panicked .fileRead)) := by
  obtain ⟨hvalid, hanswered, rfl, hopens⟩ := openedFile_some h
  simp only [answeredPaths, List.mem_cons, List.not_mem_nil, or_false, not_or] at hanswered
  obtain ⟨hhealth, hmetrics, hlimiter⟩ := hanswered
  have hown : proxy.receive env req = ownPaths env req.uri.path >>= fun _ =>
      proxy.route env req.bodyRead >>= fun selected => .going (req.bodyRead, selected) := by
    unfold receive
    rw [hvalid]
    rfl
  rw [hown]
  unfold ownPaths
  rw [if_neg hhealth, if_neg hmetrics, if_neg hlimiter]
  cases hfile : env.files ("./static".toList ++ req.uri.path) with
  | missing =>
    rw [hfile] at hopens
    cases hopens
  | unopenable =>
    rw [hfile] at hopens
    cases hopens
  | unreadable => exact .inr ⟨rfl, rfl⟩
  | contents contents => exact .inl ⟨contents, rfl, rfl⟩

end Proxy

/-- A request path that begins with a slash, or is empty, and of whose components no initial part
holds more `..` than names. -/
def StaysBelow (path : Str) : Prop :=
  ∃ segments, components path = [] :: segments ∧ Descends segments

theorem components_static (path : Str) : ∃ first segments, components path = first :: segments ∧
    components ("./static".toList ++ path) = dot :: (staticName ++ first) :: segments := by
  obtain ⟨first, segments, hpath⟩ := components_cons path
  have hdot : '/' ∉ dot := by decide
  have hstatic : '/' ∉ staticName := by decide
  have hdirectory : "./static".toList = dot ++ '/' :: staticName := rfl
  have htext : "./static".toList ++ path = dot ++ ('/' :: (staticName ++ path)) := by
    rw [hdirectory, List.append_assoc, List.cons_append]
  refine ⟨first, segments, hpath, ?_⟩
  rw [htext, components_append hdot, components_slash, components_append hstatic, hpath]
  simp

/-- The path under `./static` never leaves it, from the place of its second component on. -/
theorem passed_static_iff (cwd : Place) (path : Str) :
    (∀ place ∈ (passed cwd (components ("./static".toList ++ path))).tail,
      cwd ++ [staticName] <+: place) ↔ StaysBelow path := by
  obtain ⟨first, segments, hpath, hstatic⟩ := components_static path
  have hname : isName (staticName ++ first) = true := by
    have hsix : staticName.length = 6 := rfl
    have hlong : 6 ≤ (staticName ++ first).length := by
      rw [List.length_append]
      omega
    have hother : ∀ s : Str, s.length < 6 → staticName ++ first ≠ s := by
      intro s hs heq
      rw [heq] at hlong
      omega
    simp only [isName, Bool.and_eq_true, decide_eq_true_eq]
    exact ⟨⟨hother [] (by decide), hother dot (by decide)⟩, hother dotDot (by decide)⟩
  have hdot : enter cwd dot = cwd := enter_stays (by decide) (by decide) cwd
  rw [hstatic]
  simp only [passed, hdot, enter_name hname, List.tail_cons, List.forall_mem_cons]
  unfold StaysBelow
  rw [hpath]
  by_cases hfirst : first = []
  · subst hfirst
    have hroot : cwd ++ [staticName] ≠ [] := by simp
    have hbelow := passed_below_iff hroot [] segments
    rw [List.append_nil] at hbelow
    simp only [List.append_nil, List.prefix_refl, true_and, hbelow]
    simp [Descends]
  · -- The first component has another name than the directory.
    refine iff_of_false (fun h => ?_) (fun h => ?_)
    · have hsame := h.1.eq_of_length (by simp)
      have hlast := List.append_cancel_left hsame
      simp only [List.cons.injEq, and_true] at hlast
      have hlen := congrArg List.length hlast
      rw [List.length_append] at hlen
      exact hfirst (List.length_eq_zero_iff.mp (by omega))
    · obtain ⟨_, heq, _⟩ := h
      exact hfirst (List.cons.inj heq).1

/-- The path names a place inside `./static`, and passes no other on its way there. -/
def InsideStatic (cwd : Place) (path : Str) : Prop :=
  ∀ place ∈ (passed cwd (components path)).tail, cwd ++ [staticName] <+: place

/-- What is opened for a request stands where its path leads, and that is inside `./static`
exactly when the path of the request never goes above the directory. -/
theorem static_file_inside_iff {proxy : Proxy} {env : Surroundings} {req : Request} {disk : Disk}
    {cwd : Place} {path : Str} (hdisk : env.files = disk.files cwd)
    (hopen : proxy.openedFile env req = some path) :
    (∃ place entry, (passed cwd (components path)).getLast? = some place ∧
      disk place = some entry ∧ env.files path = entry.asFile) ∧
    (InsideStatic cwd path ↔ StaysBelow req.uri.path) := by
  obtain ⟨_, _, rfl, hopens⟩ := Proxy.openedFile_some hopen
  refine ⟨?_, passed_static_iff cwd req.uri.path⟩
  rw [hdisk] at hopens ⊢
  unfold Disk.files at hopens ⊢
  cases hfind : disk.find cwd ("./static".toList ++ req.uri.path) with
  | none =>
    rw [hfind] at hopens
    cases hopens
  | some entry =>
    obtain ⟨place, hlast, hentry⟩ := Disk.find_some hfind
    exact ⟨place, entry, hlast, hentry, rfl⟩

def road7Directory : Place := ["srv".toList, "road7".toList]

/-- The configuration beside the directory of the static files. -/
def road7Disk : Disk := fun place =>
  if place = road7Directory ∨ place = road7Directory ++ [staticName] then some .directory
  else if place = road7Directory ++ [staticName, "index.html".toList] then
    some (.file (utf8 "hello".toList))
  else if place = road7Directory ++ ["config.toml".toList] then
    some (.file (utf8 "jwt_secret = ...".toList))
  else none

def filesSurroundings (targetOrder : List (Sigma (fun _ : Str => TargetEntry))) : Surroundings :=
  { plainSurroundings targetOrder (fun _ => plainRound .timedOut) with
    files := road7Disk.files road7Directory }

theorem static_file_inside_iff_index : ∃ (proxy : Proxy) (env : Surroundings),
    Proxy.ofConfig plainCrates (plainConfig []) = .ok proxy ∧
    proxy.openedFile env (plainRequest "/index.html".toList [] []) =
      some "./static/index.html".toList ∧
    InsideStatic road7Directory "./static/index.html".toList := by
  have hdescends : Descends ["index.html".toList] := by
    intro n
    have hnone : (["index.html".toList].take n).count dotDot = 0 := by
      apply List.count_eq_zero.mpr
      intro hmem
      have hother : "index.html".toList ≠ dotDot := by decide
      exact hother (List.mem_singleton.mp (List.mem_of_mem_take hmem)).symm
    omega
  have hinside : ∀ {proxy : Proxy} {env : Surroundings} {path : Str},
      env.files = road7Disk.files road7Directory →
      proxy.openedFile env (plainRequest "/index.html".toList [] []) = some path →
      InsideStatic road7Directory path := by
    intro proxy env path hdisk hopen
    have hiff := (static_file_inside_iff hdisk hopen).2
    exact hiff.mpr ⟨_, by decide, hdescends⟩
  have hproxy : ∃ (proxy : Proxy) (env : Surroundings),
      Proxy.ofConfig plainCrates (plainConfig []) = .ok proxy ∧
      env.files = road7Disk.files road7Directory ∧
      proxy.openedFile env (plainRequest "/index.html".toList [] []) =
        some "./static/index.html".toList :=
    ⟨_, filesSurroundings [], rfl, rfl, rfl⟩
  obtain ⟨proxy, env, hconfig, hdisk, hopen⟩ := hproxy
  exact ⟨proxy, env, hconfig, hopen, hinside hdisk hopen⟩

/-- Without a target and before any check, a client reads the configuration. -/
theorem dot_dot_serves_config : ∃ (proxy : Proxy) (env : Surroundings),
    Proxy.ofConfig plainCrates (plainConfig []) = .ok proxy ∧
    env.files = road7Disk.files road7Directory ∧
    validateUri "/../config.toml".toList = .ok () ∧
    proxy.openedFile env (plainRequest "/../config.toml".toList [] []) =
      some "./static/../config.toml".toList ∧
    proxy.receive env (plainRequest "/../config.toml".toList [] []) =
      .ended (.ownReply ⟨200, [], Body.ofBytes (utf8 "jwt_secret = ...".toList)⟩) ∧
    ¬InsideStatic road7Directory "./static/../config.toml".toList := by
  refine ⟨_, filesSurroundings [], rfl, rfl, by decide, rfl, rfl, ?_⟩
  intro h
  have hout := h road7Directory (by decide)
  revert hout
  decide

end Road7
