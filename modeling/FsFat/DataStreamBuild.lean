import FsFat.ClusterRuns

/-!
The failures of a data stream. `libfsfat_file_system_get_data_stream` appends
the extents to an array of its caller while the loop goes on, and a failure that
comes later does not take them back. Here is the function with what it leaves in
the array, and with containers whose appends can fail.
-/

namespace FsFat

/-- Which appends of a call succeed, by how many there were before:
`libcdata_array_append_entry` with the extents, and
`libfdata_stream_append_segment` with the segments. -/
structure Containers where
  appendsExtent : Nat → Bool
  appendsSegment : Nat → Bool

/-- Containers that take everything. -/
def Containers.unlimited : Containers := ⟨fun _ => true, fun _ => true⟩

/-- If an append of the run fails: the extents that the array has then. -/
def DataStreamState.failedAppend (containers : Containers) (s : DataStreamState) :
    Option (List Extent) :=
  if containers.appendsExtent s.stream.extents.length then
    if containers.appendsSegment s.stream.segments.length then none
    else some s.flush.stream.extents
  else some s.stream.extents

/-- The body of the loop of `libfsfat_file_system_get_data_stream`. The loop is
left with the extents in the array, and the variables or an error. -/
def buildStep (containers : Containers) (fs : FileSystem) (last : Nat)
    (w : ChainWalk DataStreamState) :
    Loop.Step (ChainWalk DataStreamState) (List Extent × Except Error DataStreamState) :=
  if w.clusterNumber < 2 ∨ last ≤ w.clusterNumber ∨ w.value.size = 0 then
    .done (w.value.stream.extents, .ok w.value)
  else
    let offset := clusterOffset fs.ioHandle w.clusterNumber
    match checkIfClusterBlockFirstRead w.tree w.clusterNumber offset with
    | .error e => .done (w.value.stream.extents, .error e)
    | .ok tree =>
      match if w.value.segmentStartOffset ≠ 0 ∧ offset > w.value.segmentEndOffset then
          w.value.failedAppend containers else none with
      | some extents => .done (extents, .error .appendFailed)
      | none =>
        let value := w.value.addClusterBlock fs.ioHandle.clusterBlockSize offset
        match fs.allocationTable.getClusterNumberByIndex (toInt32 w.clusterNumber) with
        | .error e => .done (value.stream.extents, .error e)
        | .ok clusterNumber =>
          .next { clusterNumber, tree, accepted := w.accepted ++ [w.clusterNumber], value }

/-- After the loop: the extents in the array, and the segments or an error. -/
def finishBuild (containers : Containers) (s : DataStreamState) :
    List Extent × Except Error (List Extent) :=
  match if 0 < s.size ∧ s.segmentStartOffset ≠ 0 then s.failedAppend containers else none with
  | some extents => (extents, .error .appendFailed)
  | none => (s.finish.extents, .ok s.finish.segments)

/-- `libfsfat_file_system_get_data_stream`: the extents that it appends to the
array, and the segments of the stream or an error. -/
def buildDataStream (containers : Containers) (fs : FileSystem) (clusterNumber size : Nat) :
    List Extent × Except Error (List Extent) :=
  match lastClusterNumber fs.ioHandle.fileSystemFormat with
  | .error e => ([], .error e)
  | .ok last =>
    if hasTotalNumberOfClusters fs.ioHandle then
      match BlockTree.create fs.ioHandle.volumeSize fs.ioHandle.clusterBlockSize with
      | .error e => ([], .error e)
      | .ok tree =>
        match Loop.run (buildStep containers fs last) (numberOfBlocks fs.ioHandle + 1)
            ⟨clusterNumber, tree, [], .start size⟩ with
        | .done (extents, .error e) => (extents, .error e)
        | .done (_, .ok s) => finishBuild containers s
        | .next w => (w.value.stream.extents, .error .iterationLimit)
    else ([], .error .totalNumberOfClustersOutOfBounds)

/-! ### A call that succeeds -/

section Success

variable {containers : Containers} {fs : FileSystem} {last : Nat} {w : ChainWalk DataStreamState}

/-- An iteration is one of the loop whose containers take everything. -/
theorem buildStep_next {w' : ChainWalk DataStreamState}
    (h : buildStep containers fs last w = .next w') :
    chainStep fs last (dataStreamVisitor fs) w = .next w' := by
  by_cases hexit : w.clusterNumber < 2 ∨ last ≤ w.clusterNumber ∨ w.value.size = 0
  · rw [buildStep, if_pos hexit] at h
    cases h
  · simp only [buildStep, if_neg hexit] at h
    cases hcheck : checkIfClusterBlockFirstRead w.tree w.clusterNumber
        (clusterOffset fs.ioHandle w.clusterNumber) with
    | error e => simp [hcheck] at h
    | ok tree =>
      simp only [hcheck] at h
      split at h
      · cases h
      · cases hlink : fs.allocationTable.getClusterNumberByIndex (toInt32 w.clusterNumber) with
        | error e => simp [hlink] at h
        | ok next =>
          simp only [hlink] at h
          injection h with h
          subst h
          simp only [chainStep, dataStreamVisitor, decide_eq_true_eq, if_neg hexit, hcheck,
            afterVisit, hlink]

theorem buildStep_ok {extents : List Extent} {s : DataStreamState}
    (h : buildStep containers fs last w = .done (extents, .ok s)) :
    chainStep fs last (dataStreamVisitor fs) w = .done (w.accepted, .ok s) := by
  unfold buildStep at h
  unfold chainStep
  simp only [dataStreamVisitor, decide_eq_true_eq]
  split at h
  · next hexit =>
    rw [if_pos hexit]
    injection h with h
    injection h with _ h
    injection h with h
    rw [h]
  · dsimp only at h
    split at h
    · cases h
    · split at h
      · cases h
      · split at h <;> cases h

theorem build_terminates (containers : Containers) (last c size : Nat) {tree : BlockTree}
    (htree : BlockTree.create fs.ioHandle.volumeSize fs.ioHandle.clusterBlockSize = .ok tree) :
    ∃ result, Loop.run (buildStep containers fs last) (numberOfBlocks fs.ioHandle + 1)
      ⟨c, tree, [], .start size⟩ = .done result := by
  obtain ⟨_, hempty⟩ := standsFor_of_create htree
  refine Loop.run_of_measure (I := fun w => Accepted fs last w.tree w.accepted)
    (fun w => numberOfBlocks fs.ioHandle - w.accepted.length) ?_ ?_ (accepted_nil hempty) (by simp)
  · intro w w' hw hstep
    exact (chainStep_next hw (buildStep_next hstep)).2
  · intro w w' hw hstep
    exact chainStep_remaining_lt hw (buildStep_next hstep)

theorem finishBuild_ok {s : DataStreamState} {extents segments : List Extent}
    (h : finishBuild containers s = (extents, .ok segments)) :
    s.finish = ⟨extents, segments⟩ := by
  unfold finishBuild at h
  split at h
  · cases h
  · injection h with hextents hsegments
    injection hsegments with hsegments
    rw [← hextents, ← hsegments]

/-- A call that succeeds makes the data stream, whatever the containers are. -/
theorem buildDataStream_ok {clusterNumber size : Nat} {extents segments : List Extent}
    (h : buildDataStream containers fs clusterNumber size = (extents, .ok segments)) :
    getDataStream fs clusterNumber size = .ok ⟨extents, segments⟩ := by
  unfold buildDataStream at h
  split at h
  · cases h
  · next last hlast =>
    split at h
    · next htotal =>
      split at h
      · cases h
      · next tree htree =>
        obtain ⟨_, hempty⟩ := standsFor_of_create htree
        split at h
        · cases h
        · next s hrun =>
          have hreturns : ∃ accepted, Loop.Returns (chainStep fs last (dataStreamVisitor fs))
              ⟨clusterNumber, tree, [], .start size⟩ (accepted, .ok s) := by
            refine Loop.Returns.induction (⟨_, hrun⟩ : Loop.Returns (buildStep containers fs last)
                ⟨clusterNumber, tree, [], .start size⟩ _)
              (P := fun w => ∃ accepted, Loop.Returns (chainStep fs last (dataStreamVisitor fs)) w
                (accepted, .ok s)) ?_ ?_
            · intro w hstep
              exact ⟨_, .of_done (buildStep_ok hstep)⟩
            · rintro w w' hstep ⟨accepted, hw'⟩
              exact ⟨accepted, .of_next (buildStep_next hstep) hw'⟩
          obtain ⟨accepted, haccepted⟩ := hreturns
          have hwalk : walkChain fs last (dataStreamVisitor fs) tree clusterNumber
              (.start size) = (accepted, .ok s) :=
            Loop.Returns.unique ⟨_, walkChain_returns hempty⟩ haccepted
          rw [getDataStream_eq_walk hlast htree, if_pos htotal, hwalk]
          exact congrArg Except.ok (finishBuild_ok h)
        · cases h
    · cases h

end Success

/-! ### A call that fails -/

section Failure

variable {containers : Containers} {fs : FileSystem} {last size c : Nat}

/-- The loop, or what follows it, comes to append the last run of the clusters
that were taken: the number that follows them is no cluster, or a cluster of the
volume that the loop did not have and that starts behind the run. -/
structure ClosesRun (fs : FileSystem) (last size : Nat) (taken : List Nat) (d : Nat) : Prop where
  run : (clusterRuns fs.ioHandle taken).last.offset ≠ 0
  left : totalSize (clusterRuns fs.ioHandle taken).closed < size
  behind : 2 ≤ d → d < last →
    BlockTree.Covers fs.ioHandle.volumeSize fs.ioHandle.clusterBlockSize
        (clusterOffset fs.ioHandle d) ∧
      (∀ e ∈ taken, clusterBlock fs.ioHandle e ≠ clusterBlock fs.ioHandle d) ∧
      toOff64 ((clusterRuns fs.ioHandle taken).last.offset +
        (clusterRuns fs.ioHandle taken).last.size) < clusterOffset fs.ioHandle d

/-- The first run of the chain comes to be appended, and the array takes it. -/
def AppendsFirstRun (containers : Containers) (fs : FileSystem) (last size c : Nat) : Prop :=
  containers.appendsExtent 0 = true ∧ ∃ taken d, TakesClusters fs last size c taken d ∧
    (clusterRuns fs.ioHandle taken).closed = [] ∧ ClosesRun fs last size taken d

/-- Nothing fails: the chain can be followed until it ends or the size is used
up, and the containers take every run that comes to be appended. -/
def IsUnbroken (containers : Containers) (fs : FileSystem) (last size c : Nat) : Prop :=
  (∃ taken d, TakesClusters fs last size c taken d ∧ EndsAt fs last size taken d) ∧
    ∀ taken d, TakesClusters fs last size c taken d → ClosesRun fs last size taken d →
      containers.appendsExtent (clusterRuns fs.ioHandle taken).closed.length = true ∧
        containers.appendsSegment (clusterRuns fs.ioHandle taken).closed.length = true

/-- The walk can go on to the next cluster. -/
def TakesStep (fs : FileSystem) (last size : Nat) (p q : List Nat × Nat) : Prop :=
  q.1 = p.1 ++ [p.2] ∧ TakesNext fs last size p.1 p.2 q.2

theorem takesStep_rightUnique : Relator.RightUnique (TakesStep fs last size) := by
  rintro p ⟨xs, d⟩ ⟨ys, e⟩ ⟨hxs, hd⟩ ⟨hys, he⟩
  have hlink := hd.link.symm.trans he.link
  injection hlink with hlink
  exact Prod.ext (hxs.trans hys.symm) hlink

theorem TakesClusters.reflTransGen {taken : List Nat} {d : Nat}
    (h : TakesClusters fs last size c taken d) :
    Relation.ReflTransGen (TakesStep fs last size) ([], c) (taken, d) := by
  induction h with
  | start => exact .refl
  | next _ hnext ih => exact ih.tail ⟨rfl, hnext⟩

/-- A walk cannot get stuck and come to an end as well. -/
theorem TakesClusters.not_stuck {xs ys : List Nat} {d e : Nat}
    (hends : TakesClusters fs last size c xs d) (hend : EndsAt fs last size xs d)
    (hstuck : TakesClusters fs last size c ys e) (hnot : ¬ EndsAt fs last size ys e)
    (hnone : ∀ next, ¬ TakesNext fs last size ys e next) : False := by
  have hnoneAtEnd : ∀ q, ¬ TakesStep fs last size (xs, d) q := by
    rintro q ⟨_, hnext⟩
    exact hend ⟨hnext.cluster.1, hnext.cluster.2, hnext.left⟩
  have hnoneStuck : ∀ q, ¬ TakesStep fs last size (ys, e) q := by
    rintro q ⟨_, hnext⟩
    exact hnone _ hnext
  have heq : ((xs, d) : List Nat × Nat) = (ys, e) := by
    rcases Relation.ReflTransGen.total_of_right_unique takesStep_rightUnique hends.reflTransGen
      hstuck.reflTransGen with hreach | hreach
    · rcases hreach.cases_head with heq | ⟨q, hq, _⟩
      · exact heq
      · exact absurd hq (hnoneAtEnd q)
    · rcases hreach.cases_head with heq | ⟨q, hq, _⟩
      · exact heq.symm
      · exact absurd hq (hnoneStuck q)
  injection heq with hxs hd
  exact hnot (hxs ▸ hd ▸ hend)

theorem failedAppend_eq {s : DataStreamState} {runs : Runs} (h : s.HasTaken size runs)
    (hleft : totalSize runs.closed < size) :
    s.failedAppend containers =
      if containers.appendsExtent runs.closed.length then
        if containers.appendsSegment runs.closed.length then none
        else some s.flush.stream.extents
      else some runs.closed := by
  obtain ⟨hextents, hlength⟩ := streamOfRuns_of_lt hleft
  rw [DataStreamState.failedAppend, h.stream_eq, hlength, hextents]

/-- Where a run comes to be appended and the array takes it, the first run was
appended before, or is now. -/
theorem ClosesRun.appendsFirstRun {taken : List Nat} {d : Nat} (h : ClosesRun fs last size taken d)
    (htakes : TakesClusters fs last size c taken d)
    (happends : containers.appendsExtent (clusterRuns fs.ioHandle taken).closed.length = true)
    (hfirst : (clusterRuns fs.ioHandle taken).closed ≠ [] →
      AppendsFirstRun containers fs last size c) :
    AppendsFirstRun containers fs last size c := by
  by_cases hnil : (clusterRuns fs.ioHandle taken).closed = []
  · refine ⟨?_, taken, d, htakes, hnil, h⟩
    rwa [hnil] at happends
  · exact hfirst hnil

/-- A failed append of a run that comes to be appended. -/
theorem ClosesRun.failedAppend {taken : List Nat} {d : Nat} {s : DataStreamState}
    {extents : List Extent} (h : ClosesRun fs last size taken d)
    (htakes : TakesClusters fs last size c taken d)
    (hs : s.HasTaken size (clusterRuns fs.ioHandle taken))
    (hfirst : (clusterRuns fs.ioHandle taken).closed ≠ [] →
      AppendsFirstRun containers fs last size c)
    (hfailed : s.failedAppend containers = some extents) :
    (extents ≠ [] → AppendsFirstRun containers fs last size c) ∧
      ¬ IsUnbroken containers fs last size c := by
  rw [failedAppend_eq hs h.left] at hfailed
  split at hfailed
  · next hextent =>
    split at hfailed
    · cases hfailed
    · next hsegment =>
      exact ⟨fun _ => h.appendsFirstRun htakes hextent hfirst,
        fun hunbroken => hsegment (hunbroken.2 taken d htakes h).2⟩
  · next hextent =>
    injection hfailed with hfailed
    subst hfailed
    exact ⟨hfirst, fun hunbroken => hextent (hunbroken.2 taken d htakes h).1⟩

/-- An accepted cluster: an append fails, or the run before it is appended, if
it is behind that run. -/
theorem WalksAlong.closesRun {w : ChainWalk DataStreamState} (hw : WalksAlong fs last size c w)
    (hleft : totalSize (clusterRuns fs.ioHandle w.accepted).closed < size)
    (hin : BlockTree.Covers fs.ioHandle.volumeSize fs.ioHandle.clusterBlockSize
        (clusterOffset fs.ioHandle w.clusterNumber) ∧
      ∀ d ∈ w.accepted, clusterBlock fs.ioHandle d ≠ clusterBlock fs.ioHandle w.clusterNumber)
    (hbehind : w.value.segmentStartOffset ≠ 0 ∧
      clusterOffset fs.ioHandle w.clusterNumber > w.value.segmentEndOffset) :
    ClosesRun fs last size w.accepted w.clusterNumber := by
  obtain ⟨hstart, hend⟩ := hbehind
  rw [hw.value.start_eq] at hstart
  rw [hw.value.end_eq hstart] at hend
  exact ⟨hstart, hleft, fun _ _ => ⟨hin.1, hin.2, hend⟩⟩

theorem closed_add_appendsFirstRun {w : ChainWalk DataStreamState}
    (hw : WalksAlong fs last size c w)
    (hleft : totalSize (clusterRuns fs.ioHandle w.accepted).closed < size)
    (hin : BlockTree.Covers fs.ioHandle.volumeSize fs.ioHandle.clusterBlockSize
        (clusterOffset fs.ioHandle w.clusterNumber) ∧
      ∀ d ∈ w.accepted, clusterBlock fs.ioHandle d ≠ clusterBlock fs.ioHandle w.clusterNumber)
    (hfirst : (clusterRuns fs.ioHandle w.accepted).closed ≠ [] →
      AppendsFirstRun containers fs last size c)
    (hnone : (if w.value.segmentStartOffset ≠ 0 ∧
        clusterOffset fs.ioHandle w.clusterNumber > w.value.segmentEndOffset then
      w.value.failedAppend containers else none) = none) :
    (clusterRuns fs.ioHandle (w.accepted ++ [w.clusterNumber])).closed ≠ [] →
      AppendsFirstRun containers fs last size c := by
  rw [clusterRuns_concat]
  rcases (clusterRuns fs.ioHandle w.accepted).add_cases fs.ioHandle.clusterBlockSize
    (clusterOffset fs.ioHandle w.clusterNumber) with ⟨_, heq⟩ | ⟨hsome, hbehind, heq⟩ | ⟨_, _, heq⟩
  · rw [heq]
    exact hfirst
  · intro _
    have hbehind' : w.value.segmentStartOffset ≠ 0 ∧
        clusterOffset fs.ioHandle w.clusterNumber > w.value.segmentEndOffset := by
      rw [hw.value.start_eq, hw.value.end_eq hsome]
      exact ⟨hsome, hbehind⟩
    rw [if_pos hbehind', failedAppend_eq hw.value hleft] at hnone
    split at hnone
    · next hextent =>
      exact (hw.closesRun hleft hin hbehind').appendsFirstRun hw.takes hextent hfirst
    · cases hnone
  · rw [heq]
    exact hfirst

/-- What the body of the loop does, and what its failures leave. -/
theorem buildStep_cases {w : ChainWalk DataStreamState} (hw : WalksAlong fs last size c w)
    (hblock : fs.ioHandle.clusterBlockSize < 2 ^ 64) (hmax : fs.ioHandle.volumeSize ≤ int64Max)
    (hfirst : (clusterRuns fs.ioHandle w.accepted).closed ≠ [] →
      AppendsFirstRun containers fs last size c) :
    (EndsAt fs last size w.accepted w.clusterNumber ∧
      buildStep containers fs last w = .done (w.value.stream.extents, .ok w.value)) ∨
    (∃ extents e, buildStep containers fs last w = .done (extents, .error e) ∧
      (extents ≠ [] → AppendsFirstRun containers fs last size c) ∧
        ¬ IsUnbroken containers fs last size c) ∨
    ∃ w', buildStep containers fs last w = .next w' ∧ WalksAlong fs last size c w' ∧
      ((clusterRuns fs.ioHandle w'.accepted).closed ≠ [] →
        AppendsFirstRun containers fs last size c) := by
  have hextents : w.value.stream.extents ≠ [] →
      (clusterRuns fs.ioHandle w.accepted).closed ≠ [] := by
    intro hne hnil
    rw [hw.value.stream_eq, hnil] at hne
    exact hne rfl
  by_cases hends : EndsAt fs last size w.accepted w.clusterNumber
  · refine .inl ⟨hends, ?_⟩
    have hleft := hw.value.size_eq
    unfold EndsAt at hends
    rw [buildStep, if_pos (by omega)]
  · right
    obtain ⟨h2, hlast, hleft⟩ := not_not.mp hends
    have hexit : ¬ (w.clusterNumber < 2 ∨ last ≤ w.clusterNumber ∨ w.value.size = 0) := by
      have hsize := hw.value.size_eq
      omega
    by_cases hin : BlockTree.Covers fs.ioHandle.volumeSize fs.ioHandle.clusterBlockSize
        (clusterOffset fs.ioHandle w.clusterNumber) ∧
      ∀ d ∈ w.accepted, clusterBlock fs.ioHandle d ≠ clusterBlock fs.ioHandle w.clusterNumber
    · obtain ⟨tree, hcheck, haccepted⟩ :=
        checkIfClusterBlockFirstRead_ok hw.accepted h2 hlast hin.1 hin.2
      cases hfailed : (if w.value.segmentStartOffset ≠ 0 ∧
          clusterOffset fs.ioHandle w.clusterNumber > w.value.segmentEndOffset then
        w.value.failedAppend containers else none) with
      | some extents =>
        have hstep : buildStep containers fs last w = .done (extents, .error .appendFailed) := by
          simp only [buildStep, if_neg hexit, hcheck, hfailed]
        split at hfailed
        · next hbehind =>
          exact .inl ⟨extents, _, hstep, (hw.closesRun hleft hin hbehind).failedAppend hw.takes
            hw.value hfirst hfailed⟩
        · cases hfailed
      | none =>
        have hfirst' := closed_add_appendsFirstRun hw hleft hin hfirst hfailed
        have hvalue := hw.hasTaken_add hblock hmax haccepted hleft
        cases hlink : fs.allocationTable.getClusterNumberByIndex (toInt32 w.clusterNumber) with
        | error e =>
          have hstep : ∃ extents, buildStep containers fs last w = .done (extents, .error e) ∧
              extents = (streamOfRuns (clusterRuns fs.ioHandle
                (w.accepted ++ [w.clusterNumber])).closed size).extents :=
            ⟨_, by simp only [buildStep, if_neg hexit, hcheck, hfailed, hlink],
              congrArg DataStream.extents hvalue.stream_eq⟩
          obtain ⟨extents, hstep, rfl⟩ := hstep
          refine .inl ⟨_, e, hstep, fun hne => hfirst' fun hnil => ?_, ?_⟩
          · rw [hnil] at hne
            exact hne rfl
          · rintro ⟨⟨taken, d, htakes, hend⟩, _⟩
            refine htakes.not_stuck hend hw.takes hends fun next hnext => ?_
            have hok := hnext.link
            rw [hlink] at hok
            cases hok
        | ok next =>
          have htakes : TakesNext fs last size w.accepted w.clusterNumber next :=
            ⟨⟨h2, hlast⟩, hleft, hin.1, hin.2, hlink⟩
          refine .inr ⟨⟨next, tree, w.accepted ++ [w.clusterNumber],
            w.value.addClusterBlock fs.ioHandle.clusterBlockSize
              (clusterOffset fs.ioHandle w.clusterNumber)⟩, ?_,
            ⟨haccepted, hw.takes.next htakes, hvalue⟩, hfirst'⟩
          simp only [buildStep, if_neg hexit, hcheck, hfailed, hlink]
    · -- the cluster is refused
      obtain ⟨e, he⟩ := checkIfClusterBlockFirstRead_error hw.accepted hin
      refine .inl ⟨w.value.stream.extents, e, ?_, fun hne => hfirst (hextents hne), ?_⟩
      · simp only [buildStep, if_neg hexit, he]
      · rintro ⟨⟨taken, d, htakes, hend⟩, _⟩
        exact htakes.not_stuck hend hw.takes hends fun next hnext =>
          hin ⟨hnext.covers, hnext.fresh⟩

/-- What the loop leaves: after an error, extents only if the first run was
appended, and a chain that is broken. -/
theorem buildLoop_result {tree : BlockTree}
    (htree : BlockTree.create fs.ioHandle.volumeSize fs.ioHandle.clusterBlockSize = .ok tree)
    (hblock : fs.ioHandle.clusterBlockSize < 2 ^ 64)
    {result : List Extent × Except Error DataStreamState}
    (h : Loop.Returns (buildStep containers fs last) ⟨c, tree, [], .start size⟩ result) :
    (∀ e, result.2 = .error e → (result.1 ≠ [] → AppendsFirstRun containers fs last size c) ∧
      ¬ IsUnbroken containers fs last size c) ∧
    ∀ s, result.2 = .ok s → ∃ taken d, TakesClusters fs last size c taken d ∧
      EndsAt fs last size taken d ∧ s.HasTaken size (clusterRuns fs.ioHandle taken) ∧
      ((clusterRuns fs.ioHandle taken).closed ≠ [] →
        AppendsFirstRun containers fs last size c) := by
  obtain ⟨⟨_, _, hmax⟩, hempty⟩ := standsFor_of_create htree
  refine h.invariant (I := fun w => WalksAlong fs last size c w ∧
    ((clusterRuns fs.ioHandle w.accepted).closed ≠ [] →
      AppendsFirstRun containers fs last size c))
    (P := fun result =>
      (∀ e, result.2 = .error e → (result.1 ≠ [] → AppendsFirstRun containers fs last size c) ∧
        ¬ IsUnbroken containers fs last size c) ∧
      ∀ s, result.2 = .ok s → ∃ taken d, TakesClusters fs last size c taken d ∧
        EndsAt fs last size taken d ∧ s.HasTaken size (clusterRuns fs.ioHandle taken) ∧
        ((clusterRuns fs.ioHandle taken).closed ≠ [] →
          AppendsFirstRun containers fs last size c)) ?_ ?_ ?_
  · exact ⟨⟨accepted_nil hempty, .start, DataStreamState.start_hasTaken size⟩,
      fun hne => absurd rfl hne⟩
  · rintro w w' ⟨hw, hfirst⟩ hstep
    rcases buildStep_cases hw hblock hmax hfirst with
      ⟨_, heq⟩ | ⟨_, _, heq, _⟩ | ⟨_, heq, hw'⟩
    · rw [heq] at hstep
      cases hstep
    · rw [heq] at hstep
      cases hstep
    · rw [heq] at hstep
      injection hstep with hstep
      exact hstep ▸ hw'
  · rintro w result ⟨hw, hfirst⟩ hstep
    rcases buildStep_cases hw hblock hmax hfirst with
      ⟨hends, heq⟩ | ⟨extents, e, heq, hfails⟩ | ⟨_, heq, _⟩
    · rw [heq] at hstep
      injection hstep with hstep
      subst hstep
      refine ⟨fun e he => (by cases he), fun s hs => ?_⟩
      injection hs with hs
      exact ⟨_, _, hw.takes, hends, hs ▸ hw.value, hfirst⟩
    · rw [heq] at hstep
      injection hstep with hstep
      subst hstep
      exact ⟨fun _ _ => hfails, fun s hs => by cases hs⟩
    · rw [heq] at hstep
      cases hstep

/-- The call comes to its loop. -/
structure StartsLoop (fs : FileSystem) (last : Nat) : Prop where
  lastClusterNumber : lastClusterNumber fs.ioHandle.fileSystemFormat = .ok last
  totalNumberOfClusters : hasTotalNumberOfClusters fs.ioHandle = true
  volume : 0 < fs.ioHandle.clusterBlockSize ∧ 0 < fs.ioHandle.volumeSize ∧
    fs.ioHandle.volumeSize ≤ int64Max

/-- The condition under which a call that fails has appended nothing: if the
first run of the chain comes to be appended, and is, then nothing fails later. -/
def KeepsExtents (containers : Containers) (fs : FileSystem) (clusterNumber size : Nat) : Prop :=
  ∀ last, StartsLoop fs last → AppendsFirstRun containers fs last size clusterNumber →
    IsUnbroken containers fs last size clusterNumber

/-- A call that fails under the condition leaves the array alone. -/
theorem buildDataStream_error {clusterNumber : Nat} {extents : List Extent} {e : Error}
    (hblock : fs.ioHandle.clusterBlockSize < 2 ^ 64)
    (hkeeps : KeepsExtents containers fs clusterNumber size)
    (h : buildDataStream containers fs clusterNumber size = (extents, .error e)) :
    extents = [] := by
  by_contra hne
  unfold buildDataStream at h
  split at h
  · injection h with h
    exact hne h.symm
  · next last hlast =>
    split at h
    · next htotal =>
      split at h
      · injection h with h
        exact hne h.symm
      · next tree htree =>
        have hunbroken := hkeeps last ⟨hlast, htotal, (standsFor_of_create htree).1⟩
        split at h
        · next hrun =>
          injection h with hextents
          obtain ⟨hfirst, hbroken⟩ := (buildLoop_result htree hblock ⟨_, hrun⟩).1 _ rfl
          exact hbroken (hunbroken (hfirst (hextents ▸ hne)))
        · next s hrun =>
          obtain ⟨taken, d, htakes, hends, hs, hfirst⟩ :=
            (buildLoop_result htree hblock ⟨_, hrun⟩).2 s rfl
          unfold finishBuild at h
          split at h
          · next hfailed =>
            injection h with hextents
            subst hextents
            split at hfailed
            · next hrest =>
              have hleft := hs.size_eq
              have hcloses : ClosesRun fs last size taken d := by
                refine ⟨hs.start_eq ▸ hrest.2, by omega, fun h2 hlt => ?_⟩
                exact absurd ⟨h2, hlt, by omega⟩ hends
              obtain ⟨hfirst', hbroken⟩ := hcloses.failedAppend htakes hs hfirst hfailed
              exact hbroken (hunbroken (hfirst' hne))
            · cases hfailed
          · injection h with _ h
            cases h
        · next w hrun =>
          obtain ⟨result, hresult⟩ := build_terminates containers last clusterNumber size htree
          rw [hresult] at hrun
          cases hrun
    · injection h with h
      exact hne h.symm

end Failure

end FsFat
