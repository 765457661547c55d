import Knowledge.Replication.Shipper
import Mathlib.Algebra.GroupWithZero.Nat
import Mathlib.Data.List.Chain

/-!
Everything a `WalShipper` cuts out of a sequence of snapshots of the sidecar, generation by
generation.
-/

set_option autoImplicit false

namespace Knowledge.Replication
open WalShipper WalSegment

abbrev Shipped := WalShipper × List WalSegment

def Shipped.call (s : Shipped) (walBytes : Bytes) : Shipped :=
  let called := s.1.nextSegment walBytes
  (called.2, s.2 ++ match called.1 with
    | .ok (some segment) => [segment]
    | _ => [])

def ship (snapshots : List Bytes) : Shipped := snapshots.foldl Shipped.call (WalShipper.new, [])

def readable (snapshots : List Bytes) : List ParsedWal :=
  snapshots.filterMap fun bytes => (parseWal bytes).toOption

def Shipped.see (s : Shipped) (w : ParsedWal) : Shipped :=
  ((s.1.cut w).2, s.2 ++ (s.1.cut w).1.toList)

theorem ship_eq (snapshots : List Bytes) :
    ship snapshots = (readable snapshots).foldl Shipped.see (new, []) := by
  have hfrom : ∀ s : Shipped, snapshots.foldl Shipped.call s =
      (readable snapshots).foldl Shipped.see s := by
    induction snapshots with
    | nil => exact fun _ => rfl
    | cons bytes snapshots ih =>
      intro s
      rw [List.foldl_cons, ih]
      unfold readable Shipped.call nextSegment
      cases hp : parseWal bytes with
      | error e => simp [hp, Except.toOption]
      | ok w =>
        cases hc : (s.1.cut w).1 <;> simp [hp, Except.toOption, Shipped.see, hc]
  exact hfrom _

def ofGeneration (salts : Salts) (wals : List ParsedWal) : List ParsedWal :=
  wals.filter (fun w => w.header.salts = salts)

def emitted (salts : Salts) (segments : List WalSegment) : List WalFrame :=
  (segments.filter (fun s => s.salts = salts)).flatMap WalSegment.frames

/-- Salts do not come back once others were seen. -/
def NeverReturns (wals : List ParsedWal) : Prop :=
  ∀ (i j k : Nat) (w v u : ParsedWal), i < j → j < k → wals[i]? = some w →
    wals[j]? = some v → wals[k]? = some u → w.header.salts = u.header.salts →
    v.header.salts = u.header.salts

theorem NeverReturns.of_prefix {wals wals' : List ParsedWal} (h : NeverReturns wals')
    (hp : wals <+: wals') : NeverReturns wals := by
  obtain ⟨rest, rfl⟩ := hp
  intro i j k a b c hij hjk ha hb hc
  have hlt := (List.getElem?_eq_some_iff.mp hc).1
  refine h i j k a b c hij hjk ?_ ?_ ?_ <;> rw [List.getElem?_append_left (by omega)] <;> assumption

theorem NeverReturns.first {wals : List ParsedWal} {w v : ParsedWal}
    (h : NeverReturns (wals ++ [w])) (hv : wals.getLast? = some v)
    (hne : v.header.salts ≠ w.header.salts) : ofGeneration w.header.salts wals = [] := by
  rw [ofGeneration, List.filter_eq_nil_iff]
  intro u hu hsalts
  obtain ⟨i, hi, rfl⟩ := List.mem_iff_getElem.mp hu
  have hsame : wals[i].header.salts = w.header.salts := by simpa using hsalts
  rw [List.getLast?_eq_getElem?] at hv
  have hlast := (List.getElem?_eq_some_iff.mp hv).1
  have hlt : i < wals.length-1 := by
    by_contra hge
    have heq : i = wals.length-1 := by omega
    subst heq
    rw [List.getElem?_eq_getElem hlast] at hv
    exact hne (Option.some.inj hv ▸ hsame)
  refine hne (h i (wals.length-1) wals.length wals[i] v w hlt (by omega) ?_ ?_ ?_ hsame)
  · rw [List.getElem?_append_left hi, List.getElem?_eq_getElem hi]
  · rw [List.getElem?_append_left hlast, hv]
  · simp

theorem rposition_holds {α : Type} {p : α → Bool} {as : List α} {i : Nat}
    (h : rposition p as = some i) : ∃ a, as[i]? = some a ∧ p a = true := by
  induction as generalizing i with
  | nil => simp [rposition] at h
  | cons a as ih =>
    rw [rposition] at h
    cases hr : rposition p as with
    | some j =>
      rw [hr] at h
      obtain rfl := Option.some.inj h
      exact ih hr
    | none =>
      simp only [hr, Option.ite_none_right_eq_some, Option.some.injEq] at h
      obtain ⟨ha, rfl⟩ := h
      exact ⟨a, rfl, ha⟩

theorem committedFrames_ends {frames : List WalFrame} (h : committedFrames frames ≠ []) :
    ∃ frame ∈ (committedFrames frames).getLast?, frame.isCommit = true := by
  unfold committedFrames at h ⊢
  cases hr : rposition WalFrame.isCommit frames with
  | none => simp [hr] at h
  | some i =>
    obtain ⟨frame, hi, hc⟩ := rposition_holds hr
    have hlt := rposition_lt hr
    have hlength : (frames.take (i+1)).length-1 = i := by
      rw [List.length_take]
      omega
    refine ⟨frame, ?_, hc⟩
    rw [List.getLast?_eq_getElem?, hlength, List.getElem?_take_of_lt (Nat.lt_succ_self i), hi]
    rfl

theorem ofGeneration_snoc (salts : Salts) (wals : List ParsedWal) (w : ParsedWal) :
    ofGeneration salts (wals ++ [w]) =
      ofGeneration salts wals ++ if w.header.salts = salts then [w] else [] := by
  by_cases h : w.header.salts = salts <;> simp [ofGeneration, h]

theorem ofGeneration_last {wals : List ParsedWal} {v : ParsedWal}
    (h : wals.getLast? = some v) : (ofGeneration v.header.salts wals).getLast? = some v := by
  obtain ⟨ws, rfl⟩ := List.getLast?_eq_some_iff.mp h
  simp [ofGeneration_snoc]

theorem emitted_snoc (salts : Salts) (segments : List WalSegment) (segment : WalSegment) :
    emitted salts (segments ++ [segment]) =
      emitted salts segments ++ if segment.salts = salts then segment.frames else [] := by
  by_cases h : segment.salts = salts <;> simp [emitted, h]

/-- What the segments of a run are, once it has seen these snapshots. -/
structure Emitted (wals : List ParsedWal) (s : Shipped) : Prop where
  tracks : s.1.Tracks wals
  nextSeq : s.1.nextSeq = s.2.length+1
  seqs : s.2.map WalSegment.seq = List.range' 1 s.2.length
  commits : ∀ segment ∈ s.2, ∃ frame ∈ segment.frames.getLast?, frame.isCommit = true
  total : s.1.cumulativeFrames = (s.2.map WalSegment.frameCount).sum
  cumulative : ∀ k segment, s.2[k]? = some segment →
    segment.cumulativeFrames = ((s.2.take (k+1)).map WalSegment.frameCount).sum
  generations : ∀ salts, emitted salts s.2 =
    ((ofGeneration salts wals).getLast?.map (fun w => committedFrames w.frames)).getD []
  grown : ∀ v ∈ wals, ∀ w ∈ (ofGeneration v.header.salts wals).getLast?, v.frames <+: w.frames

theorem Emitted.new : Emitted [] (new, []) where
  tracks := WalShipper.Tracks.new
  nextSeq := rfl
  seqs := rfl
  commits := by simp
  total := rfl
  cumulative := by simp
  generations := by simp [emitted, ofGeneration]
  grown := by simp

theorem cumulative_snoc {segments : List WalSegment} {segment : WalSegment}
    (h : ∀ (k : Nat) (x : WalSegment), segments[k]? = some x →
      x.cumulativeFrames = ((segments.take (k+1)).map frameCount).sum)
    (hx : segment.cumulativeFrames =
      (segments.map frameCount).sum+segment.frameCount) :
    ∀ (k : Nat) (x : WalSegment), (segments ++ [segment])[k]? = some x →
      x.cumulativeFrames =
        (((segments ++ [segment]).take (k+1)).map frameCount).sum := by
  intro k x hk
  have hlt := (List.getElem?_eq_some_iff.mp hk).1
  rw [List.length_append, List.length_singleton] at hlt
  by_cases hold : k < segments.length
  · rw [List.getElem?_append_left hold] at hk
    rw [List.take_append_of_le_length (by omega)]
    exact h k x hk
  · obtain rfl : k = segments.length := by omega
    obtain rfl : segment = x := by simpa using hk
    rw [List.take_of_length_le (by simp), hx]
    simp

section

variable {wals : List ParsedWal}

theorem Emitted.fresh {s : Shipped} (h : Emitted wals s) {w : ParsedWal}
    (hw : ∀ v ∈ wals.getLast?, Continues v w) (hr : NeverReturns (wals ++ [w])) :
    committedFrames w.frames = emitted w.header.salts s.2 ++ s.1.fresh w := by
  rw [h.generations]
  by_cases hs : s.1.lastSalts = some w.header.salts
  · have hlast := hs
    rw [h.tracks.salts] at hlast
    obtain ⟨v, hv, hvs⟩ := Option.map_eq_some_iff.mp hlast
    rw [← hvs, ofGeneration_last hv, WalShipper.fresh, WalShipper.enter_of_eq hs,
      h.tracks.shipped v hv]
    exact committedFrames_extend (hw v hv hvs)
  · have hnone : ofGeneration w.header.salts wals = [] := by
      cases hl : wals.getLast? with
      | none => simp [List.getLast?_eq_none_iff.mp hl, ofGeneration]
      | some v =>
        refine hr.first hl fun hvs => hs ?_
        rw [h.tracks.salts, hl, Option.map_some, hvs]
    simp [hnone, WalShipper.fresh, WalShipper.enter_of_ne hs]

theorem Emitted.grown_snoc {s : Shipped} (h : Emitted wals s)
    {w : ParsedWal} (hw : ∀ v ∈ wals.getLast?, Continues v w) (hr : NeverReturns (wals ++ [w])) :
    ∀ v ∈ wals ++ [w], ∀ u ∈ (ofGeneration v.header.salts (wals ++ [w])).getLast?,
      v.frames <+: u.frames := by
  intro v hv u hu
  rw [ofGeneration_snoc] at hu
  by_cases hs : w.header.salts = v.header.salts
  · obtain rfl : w = u := by simpa [hs] using hu
    rcases List.mem_append.mp hv with hv | hv
    · cases hl : wals.getLast? with
      | none => simp [List.getLast?_eq_none_iff.mp hl] at hv
      | some last =>
        have hlast : last.header.salts = w.header.salts := by
          by_contra hne
          have hnone := hr.first hl hne
          rw [ofGeneration, List.filter_eq_nil_iff] at hnone
          exact hnone v hv (by simp [hs])
        have hgen := ofGeneration_last hl
        rw [hlast, hs] at hgen
        exact (h.grown v hv last hgen).trans (hw last hl hlast)
    · obtain rfl := List.mem_singleton.mp hv
      exact List.prefix_rfl
  · rw [if_neg hs, List.append_nil] at hu
    rcases List.mem_append.mp hv with hv | hv
    · exact h.grown v hv u hu
    · exact absurd (congrArg (·.header.salts) (List.mem_singleton.mp hv)).symm hs

theorem Emitted.see {s : Shipped} (h : Emitted wals s) {w : ParsedWal}
    (hw : ∀ v ∈ wals.getLast?, Continues v w) (hr : NeverReturns (wals ++ [w])) :
    Emitted (wals ++ [w]) (s.see w) := by
  have htracks := h.tracks.cut hw
  have hfresh := h.fresh hw hr
  have hgrown := h.grown_snoc hw hr
  have hgenerations : ∀ salts,
      emitted salts s.2 ++ (if w.header.salts = salts then s.1.fresh w else []) =
        ((ofGeneration salts (wals ++ [w])).getLast?.map
          (fun w => committedFrames w.frames)).getD [] := by
    intro salts
    rw [ofGeneration_snoc]
    by_cases hs : w.header.salts = salts
    · subst hs
      simp [hfresh]
    · simp [hs, h.generations]
  rw [Shipped.see, cut_eq] at *
  split
  · rename_i hnil
    simp only [hnil, ite_self, List.append_nil] at hgenerations
    rw [if_pos hnil] at htracks
    exact ⟨htracks, by simpa using h.nextSeq, by simpa using h.seqs, by simpa using h.commits,
      by simpa using h.total, by simpa using h.cumulative, by simpa using hgenerations, hgrown⟩
  · rename_i hsome
    rw [if_neg hsome] at htracks
    refine ⟨htracks, ?_, ?_, ?_, ?_, ?_, ?_, hgrown⟩
    · simp [advance, h.nextSeq]
    · simp [segmentOf, h.nextSeq, h.seqs, List.range'_concat, Nat.add_comm]
    · intro segment hsegment
      rcases List.mem_append.mp hsegment with hold | hnew
      · exact h.commits segment hold
      · obtain rfl : segment = s.1.segmentOf w := by simpa using hnew
        exact committedFrames_ends hsome
    · simp [advance, segmentOf, frameCount, h.total]
    · exact cumulative_snoc h.cumulative
        (by simp [segmentOf, frameCount, h.total])
    · intro salts
      rw [← hgenerations salts, Option.toList_some, emitted_snoc]
      rfl

theorem Emitted.run (hext : wals.IsChain Continues)
    (hsalts : NeverReturns wals) : Emitted wals (wals.foldl Shipped.see (WalShipper.new, [])) := by
  induction wals using List.reverseRecOn with
  | nil => exact Emitted.new
  | append_singleton ws w ih =>
    obtain ⟨hinit, _, hjoin⟩ := List.isChain_append.mp hext
    have hprev := ih hinit (hsalts.of_prefix (List.prefix_append ws [w]))
    rw [List.foldl_append]
    exact hprev.see (fun v hv => hjoin v hv w rfl) hsalts

theorem Emitted.longest {s : Shipped} (h : Emitted wals s) {w : ParsedWal} (hw : w ∈ wals)
    (hlong : ∀ v ∈ wals, v.header.salts = w.header.salts → v.frames.length ≤ w.frames.length) :
    emitted w.header.salts s.2 = committedFrames w.frames := by
  have hmem : w ∈ ofGeneration w.header.salts wals := by simp [ofGeneration, hw]
  rw [h.generations]
  cases hl : (ofGeneration w.header.salts wals).getLast? with
  | none => simp [List.getLast?_eq_none_iff.mp hl] at hmem
  | some last =>
    obtain ⟨hlast, hsalts⟩ := List.mem_filter.mp (List.mem_of_getLast? hl)
    have hprefix := h.grown w hw last hl
    have hle := hlong last hlast (by simpa using hsalts)
    have heq : w.frames = last.frames := hprefix.eq_of_length (by
      have := hprefix.length_le
      omega)
    simp [heq]

end

theorem readable_mono {xs ys : List Bytes} (h : xs <+: ys) : readable xs <+: readable ys := by
  obtain ⟨zs, rfl⟩ := h
  exact ⟨readable zs, by rw [readable, readable, readable, List.filterMap_append]⟩

theorem ship_mono {xs ys : List Bytes} (h : xs <+: ys) : (ship xs).2 <+: (ship ys).2 := by
  obtain ⟨zs, rfl⟩ := h
  rw [ship, ship, List.foldl_append]
  induction zs using List.reverseRecOn with
  | nil => exact List.prefix_rfl
  | append_singleton zs z ih =>
    rw [List.foldl_append]
    exact ih.trans (List.prefix_append _ _)

/-- At every point `seen` of a sequence of snapshots, what has been emitted of a generation is
what its longest snapshot so far shows as committed. -/
theorem ship_emits_committed (snapshots : List Bytes)
    (hext : (readable snapshots).IsChain Continues) (hsalts : NeverReturns (readable snapshots)) :
    ∀ seen, seen <+: snapshots →
      (ship seen).2 <+: (ship snapshots).2 ∧
      (ship seen).2.map seq = List.range' 1 (ship seen).2.length ∧
      (∀ segment ∈ (ship seen).2, segment.frames ≠ [] ∧
        ∃ frame ∈ segment.frames.getLast?, frame.isCommit = true) ∧
      (∀ (k : Nat) (segment : WalSegment), (ship seen).2[k]? = some segment →
        segment.cumulativeFrames = (((ship seen).2.take (k+1)).map frameCount).sum) ∧
      (∀ w ∈ readable seen,
        (∀ v ∈ readable seen, v.header.salts = w.header.salts →
          v.frames.length ≤ w.frames.length) →
        emitted w.header.salts (ship seen).2 = committedFrames w.frames) ∧
      ∀ salts, (∀ w ∈ readable seen, w.header.salts ≠ salts) →
        emitted salts (ship seen).2 = [] := by
  intro seen hseen
  have hprefix := readable_mono hseen
  have hchain := List.IsChain.prefix hext hprefix
  have h := Emitted.run hchain (hsalts.of_prefix hprefix)
  rw [← ship_eq] at h
  refine ⟨ship_mono hseen, h.seqs, ?_, h.cumulative, fun w hw => h.longest hw, ?_⟩
  · intro segment hsegment
    obtain ⟨frame, hlast, hcommit⟩ := h.commits segment hsegment
    refine ⟨?_, frame, hlast, hcommit⟩
    intro hnil
    simp [hnil] at hlast
  · intro salts hnone
    have hempty : ofGeneration salts (readable seen) = [] := by
      simpa [ofGeneration, List.filter_eq_nil_iff] using hnone
    rw [h.generations, hempty]
    rfl

namespace Late

def first : WalFrame := samplePage 1 1 7

def begun : WalFrame := samplePage 2 0 8

def commit : WalFrame := samplePage 3 3 9

def snapshots : List Bytes :=
  [walBytes (sampleHeader (10, 20)) [first, begun],
    walBytes (sampleHeader (10, 20)) [first, begun, commit],
    walBytes (sampleHeader (11, 21)) [first]]

def parsed : List ParsedWal :=
  [recovered (sampleHeader (10, 20)) [first, begun],
    recovered (sampleHeader (10, 20)) [first, begun, commit],
    recovered (sampleHeader (11, 21)) [first]]

theorem parseWal_sample (salts : Salts) {frames : List WalFrame}
    (h : ∀ frame ∈ frames, frame = first ∨ frame = begun ∨ frame = commit) :
    parseWal (walBytes (sampleHeader salts) frames) =
      .ok (recovered (sampleHeader salts) frames) := by
  refine parseWal_walBytes (show PageSizeOk 512 by decide) fun frame hframe => ?_
  rcases h frame hframe with rfl | rfl | rfl <;> exact List.length_replicate

theorem readable_snapshots : readable snapshots = parsed := by
  have h₁ := @parseWal_sample (10, 20) [first, begun] (by simp)
  have h₂ := @parseWal_sample (10, 20) [first, begun, commit] (by simp)
  have h₃ := @parseWal_sample (11, 21) [first] (by simp)
  simp [readable, snapshots, parsed, h₁, h₂, h₃, Except.toOption]

end Late

open Late

/-- A transaction whose commit frame comes a snapshot late, then a new generation. -/
theorem ship_emits_committed_late :
    emitted (10, 20) (ship snapshots).2 = [first, begun, commit] := by
  have hext : parsed.IsChain Continues := by
    refine .cons_cons ?_ (.cons_cons ?_ (.singleton _))
    · exact fun _ => ⟨[commit], rfl⟩
    · intro hsalts
      exact absurd hsalts (by decide)
  have hsalts : NeverReturns parsed := by
    intro i j k w v u hij hjk hw hv hu hwu
    have hlt : k < 3 := (List.getElem?_eq_some_iff.mp hu).1
    obtain rfl : i = 0 := by omega
    obtain rfl : k = 2 := by omega
    obtain rfl := Option.some.inj hw
    obtain rfl := Option.some.inj hu
    exact absurd hwu (by decide)
  rw [← readable_snapshots] at hext hsalts
  obtain ⟨_, _, _, _, hlongest, _⟩ :=
    ship_emits_committed snapshots hext hsalts snapshots List.prefix_rfl
  rw [readable_snapshots] at hlongest
  refine hlongest (recovered (sampleHeader (10, 20)) [first, begun, commit])
    (by simp [parsed]) ?_
  intro v hv hsame
  simp only [parsed, List.mem_cons, List.not_mem_nil, or_false] at hv
  rcases hv with rfl | rfl | rfl <;> decide

end Knowledge.Replication
