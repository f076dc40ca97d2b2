import Apoptotic.Command.Escalation
import Apoptotic.Command.Targets
import Apoptotic.Lib.ExtendedRationals

/-!
# What target selectors mean

What the filters, the order and the limit of a selector promise, over numbers that do not round.
The code never looks at the level range, takes malformed arguments for none, and picks the target of
`@p` before it filters.

Principal results: `applySelectorFilters_complete` — who is left out comes after the limit;
`nearestPlayer_spec` — nobody is nearer than the candidate of `@p`; `forall_means_iff` — **the
selectors that mean their filters, whoever is online**, where distances are numbers and anywhere.
-/

namespace Apoptotic.Commands.Targets

open Text

/-! ## What a selector should mean -/

/-- Numbers that do not round; the greatest `f64` is the literal. -/
def exact : Arithmetic ERat where
  lit n := .finite n
  add := ERat.add
  sub := ERat.sub
  mul := ERat.mul
  lt := ERat.lt
  sqrtLt := ERat.sqrtLt
  sqrtGt := ERat.sqrtGt
  greatest := .finite ((2 ^ 53 - 1) * 2 ^ 971)
  least := .finite (-((2 ^ 53 - 1) * 2 ^ 971))

namespace Args

variable (args : Args ERat)

/-- The distance lies in the range, which is one of numbers. -/
def Within (distSq : ERat) : Prop :=
  (∀ lo, args.distanceMin = some lo → distSq.sqrtGe lo = true) ∧
    ∀ hi, args.distanceMax = some hi → distSq.sqrtLe hi = true

def InLevels (level : Int) : Prop :=
  (∀ lo, args.levelMin = some lo → lo ≤ level) ∧ ∀ hi, args.levelMax = some hi → level ≤ hi

end Args

namespace World

variable (w : World ERat) (args : Args ERat)

/-- The squared distance of a player. -/
abbrev dist (p : Candidate ERat) : ERat := w.distSqAt exact p.position

/-- A target satisfies the filters that are given. -/
structure Satisfies (t : Uuid × String) : Prop where
  distance : args.distanceMin.isSome ∨ args.distanceMax.isSome →
    ∃ p, w.get t.1 = some p ∧ args.Within (w.dist p)
  name : ∀ name, args.nameFilter = some name → eqIgnoreAsciiCase t.2 name = true
  gamemode : ∀ gm, args.gamemodeFilter = some gm → ∃ p, w.get t.1 = some p ∧ p.gamemode = gm
  level : ∀ p, w.get t.1 = some p → args.InLevels p.xpLevel

/-- `t` may come before `u`. -/
def InOrder (sort : SortOrder) (t u : Uuid × String) : Prop :=
  ∀ p q, w.get t.1 = some p → w.get u.1 = some q →
    match sort with
    | .nearest => (w.dist q).lt (w.dist p) = false
    | .furthest => (w.dist p).lt (w.dist q) = false
    | _ => True

/-- What the arguments of a selector promise of its targets `ts`. -/
structure Means (host : Host) (selector : String) (ts : List (Uuid × String)) : Prop where
  filters : ∀ t ∈ ts, w.Satisfies args t
  order : ts.Pairwise (w.InOrder args.sort)
  limit : ∀ n, args.limit = some n → ts.length ≤ n
  /-- `@p` finds the nearest player among those who satisfy the filters. -/
  nearest : selector = "@p" → args.limit ≠ some 0 →
    ∀ q ∈ w.players, w.Satisfies args q.target → ∃ p ∈ w.players, ts = [p.target] ∧
      ∀ q ∈ w.players, w.Satisfies args q.target → (w.dist q).lt (w.dist p) = false
  /-- Any other selector leaves nobody out but for the limit. -/
  complete : selector ≠ "@p" → ∀ t ∈ w.candidates exact host selector, w.Satisfies args t → t ∉ ts →
    args.limit = some ts.length ∧ ∀ u ∈ ts, w.InOrder args.sort u t

/-- A selector means its filters, and one whose arguments are malformed matches nobody. -/
def MeansFilters (host : Host) (parseF64 : String → Option ERat) (target : String) : Prop :=
  let ts := w.targets exact host parseF64 target
  match parseTargetWithArgs target with
  | (selector, none) => w.Means {} host selector ts
  | (selector, some text) =>
      match parseArgs host parseF64 text with
      | .ok args => w.Means args host selector ts
      | .error _ => ts = []

end World

/-- Who may be online: players anywhere, with levels that fit. -/
structure Scene where
  world : World ERat
  levels : ∀ p ∈ world.players, -2 ^ 31 ≤ p.xpLevel ∧ p.xpLevel < 2 ^ 31

/-- All distances are numbers; `/tp` takes a NaN too. -/
def World.Numbers (w : World ERat) : Prop := ∀ p ∈ w.players, w.dist p ≠ .nan

/-! ## The selectors that do -/

namespace Args

variable (args : Args ERat) (selector : String)

/-- The least distance from the lower bound on; a player is at distance 0 from itself. -/
def reach : ERat :=
  if selector = "@s" then 0
  else match args.distanceMin with
    | some lo => if ERat.lt 0 lo then lo else 0
    | none => 0

/-- Some player could be a target, but for the distances. -/
structure Reachable (host : Host) : Prop where
  limit : args.limit ≠ some 0
  name : selector ∉ ["@a", "@e", "@p", "@r", "@s"] → ∃ username,
    host.toLowercase username = host.toLowercase selector ∧
      ∀ name, args.nameFilter = some name → eqIgnoreAsciiCase username name = true

/-- Some player in some place could be a target. -/
structure CanMatch (host : Host) : Prop extends args.Reachable selector host where
  distance : args.passes exact ((args.reach selector).mul (args.reach selector)) = true

/-- The bounds of the distance are numbers, the range of the levels leaves none out, and `@p`
filters nobody out who may be nearer than a target. -/
structure Plain : Prop where
  bounds : ∀ b, args.distanceMin = some b ∨ args.distanceMax = some b → b ≠ .nan
  levels : ∀ level : Int, -2 ^ 31 ≤ level → level < 2 ^ 31 → args.InLevels level
  nearest : selector = "@p" → args.nameFilter = none ∧ args.gamemodeFilter = none ∧
    ∀ lo, args.distanceMin = some lo → ERat.lt 0 lo = false

/-- Plain arguments that look at no distance, but for whom `@p` picks. -/
structure Blind : Prop where
  min : args.distanceMin = none
  max : args.distanceMax = none
  levels : ∀ level : Int, -2 ^ 31 ≤ level → level < 2 ^ 31 → args.InLevels level
  nearest : selector = "@p" → args.nameFilter = none ∧ args.gamemodeFilter = none
  sort : selector = "@a" ∨ selector = "@e" → args.sort ≠ .nearest ∧ args.sort ≠ .furthest

end Args

/-- No arguments, or arguments that are well formed and, if anybody can match them, plain. -/
def Sound (host : Host) (parseF64 : String → Option ERat) (target : String) : Prop :=
  match parseTargetWithArgs target with
  | (_, none) => True
  | (selector, some text) => ∃ args, parseArgs host parseF64 text = .ok args ∧
      (args.CanMatch selector host → args.Plain selector)

/-- The same where a distance may be no number. -/
def Robust (host : Host) (parseF64 : String → Option ERat) (target : String) : Prop :=
  match parseTargetWithArgs target with
  | (_, none) => True
  | (selector, some text) => ∃ args, parseArgs host parseF64 text = .ok args ∧
      (args.Reachable selector host → args.Blind selector)

/-! ## Filters, order and limit -/

namespace World

section Generic

variable {F : Type} (f : Arithmetic F) (w : World F) (args : Args F)

/-- Whether a candidate is kept by all the filters of the code. -/
def kept (t : Uuid × String) : Bool :=
  (!(args.distanceMin.isSome || args.distanceMax.isSome) || w.withinDistance f args t.1) &&
    ((args.nameFilter.map fun name => eqIgnoreAsciiCase t.2 name).getD true &&
      (args.gamemodeFilter.map fun gm =>
        ((w.get t.1).map fun p => decide (p.gamemode = gm)).getD false).getD true)

def sorted (candidates : List (Uuid × String)) : List (Uuid × String) :=
  match args.sort with
  | .nearest =>
      candidates.mergeSort fun a b => !f.lt (w.distSq f f.greatest b.1) (w.distSq f f.greatest a.1)
  | .furthest =>
      candidates.mergeSort fun a b => !f.lt (w.distSq f f.least a.1) (w.distSq f f.least b.1)
  | .random => shuffle (w.seed.getD 42) candidates
  | .arbitrary => candidates

def cut (ts : List (Uuid × String)) : List (Uuid × String) := (args.limit.map ts.take).getD ts

/-- The filters at once. -/
theorem applySelectorFilters_eq (cs : List (Uuid × String)) :
    w.applySelectorFilters f args cs = cut args (w.sorted f args (cs.filter (w.kept f args))) := by
  have hfilter : cs.filter (w.kept f args) =
      (let cs := if args.distanceMin.isSome || args.distanceMax.isSome then
        cs.filter fun c => w.withinDistance f args c.1 else cs
      let cs := (args.nameFilter.map fun name =>
        cs.filter fun c => eqIgnoreAsciiCase c.2 name).getD cs
      (args.gamemodeFilter.map fun gm => cs.filter fun c =>
        ((w.get c.1).map fun p => decide (p.gamemode = gm)).getD false).getD cs) := by
    unfold kept
    cases args.nameFilter <;> cases args.gamemodeFilter <;>
      cases args.distanceMin.isSome || args.distanceMax.isSome <;>
      simp [List.filter_filter, Bool.and_comm, Bool.and_left_comm, Bool.and_assoc]
  rw [hfilter]
  unfold applySelectorFilters cut sorted
  cases args.nameFilter <;> cases args.gamemodeFilter <;> cases args.limit <;> rfl

theorem sorted_perm (cs : List (Uuid × String)) : (w.sorted f args cs).Perm cs := by
  unfold sorted
  split
  · exact List.mergeSort_perm _ _
  · exact List.mergeSort_perm _ _
  · exact shuffle_perm _ cs
  · exact List.Perm.refl cs

theorem cut_sublist (ts : List (Uuid × String)) : (cut args ts).Sublist ts := by
  unfold cut
  cases args.limit with
  | none => exact List.Sublist.refl ts
  | some n => exact List.take_sublist n ts

variable {f w args}

theorem mem_applySelectorFilters {cs : List (Uuid × String)} {t : Uuid × String}
    (h : t ∈ w.applySelectorFilters f args cs) :
    t ∈ cs ∧ w.kept f args t = true ∧ args.limit ≠ some 0 := by
  rw [applySelectorFilters_eq] at h
  have hsorted := (w.sorted_perm f args _).mem_iff.1 ((cut_sublist args _).mem h)
  refine ⟨(List.mem_filter.1 hsorted).1, (List.mem_filter.1 hsorted).2, ?_⟩
  intro hzero
  simp [cut, hzero] at h

/-- Whoever is kept by the filters and left out is cut off by the limit, and comes later. -/
theorem applySelectorFilters_complete {R : Uuid × String → Uuid × String → Prop}
    {cs : List (Uuid × String)} (hsorted : (w.sorted f args (cs.filter (w.kept f args))).Pairwise R)
    {t : Uuid × String} (ht : t ∈ cs) (hkept : w.kept f args t = true)
    (hnot : t ∉ w.applySelectorFilters f args cs) :
    args.limit = some (w.applySelectorFilters f args cs).length ∧
      ∀ u ∈ w.applySelectorFilters f args cs, R u t := by
  rw [applySelectorFilters_eq] at hnot ⊢
  have hmem : t ∈ w.sorted f args (cs.filter (w.kept f args)) :=
    (w.sorted_perm f args _).mem_iff.2 (List.mem_filter.2 ⟨ht, hkept⟩)
  generalize w.sorted f args (cs.filter (w.kept f args)) = ts at hsorted hmem hnot
  cases hlimit : args.limit with
  | none => exact absurd hmem (by simpa [cut, hlimit] using hnot)
  | some n =>
      have hcut : cut args ts = ts.take n := by simp [cut, hlimit]
      rw [hcut] at hnot ⊢
      have hdrop : t ∈ ts.drop n := by
        rw [← List.take_append_drop n ts, List.mem_append] at hmem
        exact hmem.resolve_left hnot
      have hlength : n < ts.length := by
        by_contra hle
        rw [List.drop_of_length_le (by omega)] at hdrop
        cases hdrop
      refine ⟨by rw [List.length_take]; congr 1; omega, fun u hu => ?_⟩
      rw [← List.take_append_drop n ts, List.pairwise_append] at hsorted
      exact hsorted.2.2 u hu t hdrop

theorem cut_cons (hlimit : args.limit ≠ some 0) (t : Uuid × String) (ts : List (Uuid × String)) :
    ∃ rest, cut args (t :: ts) = t :: rest := by
  unfold cut
  cases hn : args.limit with
  | none => exact ⟨ts, rfl⟩
  | some n =>
      obtain ⟨m, rfl⟩ := Nat.exists_eq_succ_of_ne_zero fun hzero => hlimit (hzero ▸ hn)
      exact ⟨ts.take m, rfl⟩

theorem applySelectorFilters_singleton {t : Uuid × String} (hkept : w.kept f args t = true)
    (hlimit : args.limit ≠ some 0) : w.applySelectorFilters f args [t] = [t] := by
  have hfilter : [t].filter (w.kept f args) = [t] := by simp [hkept]
  have hsorted : w.sorted f args [t] = [t] := List.perm_singleton.1 (w.sorted_perm f args [t])
  obtain ⟨rest, hrest⟩ := cut_cons hlimit t []
  have hlength : (t :: rest).length ≤ 1 := hrest ▸ (cut_sublist args [t]).length_le
  have hnil : rest = [] := List.length_eq_zero_iff.1 (by simpa using hlength)
  rw [applySelectorFilters_eq, hfilter, hsorted, hrest, hnil]

theorem length_applySelectorFilters_le {cs : List (Uuid × String)} {n : Nat}
    (h : args.limit = some n) : (w.applySelectorFilters f args cs).length ≤ n := by
  rw [applySelectorFilters_eq]
  simp [cut, h]

theorem get_of_mem {p : Candidate F} (hp : p ∈ w.players) : w.get p.uuid = some p := by
  obtain ⟨q, hq⟩ : ∃ q, w.get p.uuid = some q :=
    Option.isSome_iff_exists.1 (List.find?_isSome.2 ⟨p, hp, by simp⟩)
  have huuid : q.uuid = p.uuid := by simpa using List.find?_some hq
  rw [hq, List.inj_on_of_nodup_map w.nodup (List.mem_of_find?_eq_some hq) hp huuid]

theorem mem_of_get {uuid : Uuid} {p : Candidate F} (h : w.get uuid = some p) : p ∈ w.players :=
  List.mem_of_find?_eq_some h

end Generic

/-! ## Without rounding -/

variable {w : World ERat} {args : Args ERat}

theorem isSq_dist {p : Candidate ERat} (h : w.dist p ≠ .nan) : (w.dist p).IsSq := by
  obtain ⟨hxy, hz⟩ := ERat.ne_nan_of_add h
  obtain ⟨hx, hy⟩ := ERat.ne_nan_of_add hxy
  exact ((ERat.isSq_mul_self (ERat.ne_nan_of_mul_self hx)).add
    (ERat.isSq_mul_self (ERat.ne_nan_of_mul_self hy))).add
      (ERat.isSq_mul_self (ERat.ne_nan_of_mul_self hz))

theorem distSq_of_get {uuid : Uuid} {p : Candidate ERat} (h : w.get uuid = some p)
    (default : ERat) : w.distSq exact default uuid = w.dist p := by
  simp [distSq, h]

theorem distSq_ne_nan (hw : w.Numbers) {default : ERat}
    (hdefault : default ≠ .nan) (uuid : Uuid) : w.distSq exact default uuid ≠ .nan := by
  unfold distSq
  split
  · rename_i p hp
    exact hw p (mem_of_get hp)
  · exact hdefault

/-- A sort by a relation on numbers that a comparison decides. -/
theorem pairwise_mergeSort_lt (lt : Uuid × String → Uuid × String → Bool)
    (hasymm : ∀ t u, lt t u = true → lt u t = false)
    (htrans : ∀ t u v, lt u t = false → lt v u = false → lt v t = false)
    (ts : List (Uuid × String)) : (ts.mergeSort fun t u => !lt u t).Pairwise fun t u => lt u t = false := by
  have h := @List.pairwise_mergeSort _ (fun t u => !lt u t)
    (fun t u v htu huv => by
      simp only [Bool.not_eq_true'] at htu huv ⊢
      exact htrans t u v htu huv)
    (fun t u => by
      cases hut : lt u t with
      | false => rfl
      | true => simp [hasymm u t hut]) ts
  simpa using h

theorem sorted_pairwise (hw : w.Numbers) (ts : List (Uuid × String)) :
    (w.sorted exact args ts).Pairwise (w.InOrder args.sort) := by
  have hgreatest : ∀ uuid, w.distSq exact exact.greatest uuid ≠ .nan :=
    distSq_ne_nan hw (by simp [exact])
  have hleast : ∀ uuid, w.distSq exact exact.least uuid ≠ .nan := distSq_ne_nan hw (by simp [exact])
  unfold sorted
  cases args.sort with
  | nearest =>
      have hsorted := pairwise_mergeSort_lt
        (fun t u => (w.distSq exact exact.greatest t.1).lt (w.distSq exact exact.greatest u.1))
        (fun t u => ERat.lt_asymm) (fun t u v => ERat.not_lt_trans (hgreatest u.1)) ts
      refine hsorted.imp fun {t u} h p q hp hq => ?_
      rw [distSq_of_get hp, distSq_of_get hq] at h
      exact h
  | furthest =>
      have hsorted := pairwise_mergeSort_lt
        (fun t u => (w.distSq exact exact.least u.1).lt (w.distSq exact exact.least t.1))
        (fun t u => ERat.lt_asymm)
        (fun t u v htu huv => ERat.not_lt_trans (hleast u.1) huv htu) ts
      refine hsorted.imp fun {t u} h p q hp hq => ?_
      rw [distSq_of_get hp, distSq_of_get hq] at h
      exact h
  | random => exact List.pairwise_of_forall fun t u p q _ _ => trivial
  | arbitrary => exact List.pairwise_of_forall fun t u p q _ _ => trivial

/-- The fold finds a player whom nobody is nearer than. -/
theorem exists_nearest (b : Candidate ERat) (ps : List (Candidate ERat)) : ∃ p ∈ b :: ps,
    ps.foldl (w.nearer exact) (some b) = some p ∧ (w.dist b = .nan → w.dist p = .nan) ∧
      ∀ q ∈ b :: ps, (w.dist q).lt (w.dist p) = false := by
  induction ps generalizing b with
  | nil => exact ⟨b, List.mem_cons_self, rfl, id, by simp [ERat.lt_irrefl]⟩
  | cons q ps ih =>
      rw [List.foldl_cons]
      cases hlt : (w.dist q).lt (w.dist b) with
      | true =>
          have hnearer : w.nearer exact (some b) q = some q := if_pos hlt
          obtain ⟨p, hp, hfold, -, hleast⟩ := ih q
          have hqp := hleast q List.mem_cons_self
          refine ⟨p, List.mem_cons_of_mem b hp, by rw [hnearer, hfold],
            fun hb => absurd hb (ERat.ne_nan_of_lt hlt), ?_⟩
          rw [List.forall_mem_cons]
          exact ⟨ERat.not_lt_trans (ERat.ne_nan_of_lt_left hlt) hqp (ERat.lt_asymm hlt), hleast⟩
      | false =>
          have hnearer : w.nearer exact (some b) q = some b := if_neg (Bool.eq_false_iff.1 hlt)
          obtain ⟨p, hp, hfold, hnan, hleast⟩ := ih b
          obtain ⟨hbp, hrest⟩ := List.forall_mem_cons.1 hleast
          have hqp : (w.dist q).lt (w.dist p) = false := by
            by_cases hb : w.dist b = .nan
            · rw [hnan hb]
              exact ERat.not_lt_nan _
            · exact ERat.not_lt_trans hb hbp hlt
          refine ⟨p, ?_, by rw [hnearer, hfold], hnan, ?_⟩
          · rcases List.mem_cons.1 hp with rfl | hp
            · exact List.mem_cons_self
            · exact List.mem_cons_of_mem b (List.mem_cons_of_mem q hp)
          · rw [List.forall_mem_cons, List.forall_mem_cons]
            exact ⟨hbp, hqp, hrest⟩

/-- **Nobody is nearer than `nearest_player`.** -/
theorem nearestPlayer_spec {q : Candidate ERat} (hq : q ∈ w.players) :
    ∃ p ∈ w.players, w.nearestPlayer exact = some p ∧
      ∀ q ∈ w.players, (w.dist q).lt (w.dist p) = false := by
  unfold nearestPlayer
  cases hplayers : w.players with
  | nil => simp [hplayers] at hq
  | cons b ps =>
      obtain ⟨p, hp, hfold, -, hleast⟩ := w.exists_nearest b ps
      exact ⟨p, hp, hfold, hleast⟩

end World

/-! ## What the filters keep -/

/-- The bounds of the distance are numbers. -/
def Args.Bounds (args : Args ERat) : Prop :=
  ∀ b, args.distanceMin = some b ∨ args.distanceMax = some b → b ≠ .nan

namespace Args

variable {args : Args ERat}

/-- A distance in the range is one that passes, if the bounds are numbers. -/
theorem within_iff {d : ERat} (hd : d.IsSq) :
    args.Within d ↔ args.passes exact d = true ∧ args.Bounds := by
  have hge : ∀ b, d.sqrtGe b = true ↔ d.sqrtLt b = false ∧ b ≠ .nan := by
    intro b
    by_cases hb : b = .nan
    · subst hb
      rcases hd with rfl | ⟨p, -, rfl⟩ <;> simp [ERat.sqrtGe]
    · simp [ERat.sqrtGe_eq hd hb, hb]
  have hle : ∀ b, d.sqrtLe b = true ↔ d.sqrtGt b = false ∧ b ≠ .nan := by
    intro b
    by_cases hb : b = .nan
    · subst hb
      rcases hd with rfl | ⟨p, -, rfl⟩ <;> simp [ERat.sqrtLe]
    · simp [ERat.sqrtLe_eq hd hb, hb]
  unfold Within passes Bounds
  cases args.distanceMin <;> cases args.distanceMax <;> simp [hge, hle, exact, or_imp, forall_and]
  tauto

end Args

namespace World

variable {w : World ERat} {args : Args ERat} {t : Uuid × String}

theorem withinDistance_eq_true : w.withinDistance exact args t.1 = true ↔
    ∃ p, w.get t.1 = some p ∧ args.passes exact (w.dist p) = true := by
  unfold withinDistance
  cases w.get t.1 <;> simp

theorem kept_eq_true : w.kept exact args t = true ↔
    (args.distanceMin.isSome ∨ args.distanceMax.isSome →
      ∃ p, w.get t.1 = some p ∧ args.passes exact (w.dist p) = true) ∧
    (∀ name, args.nameFilter = some name → eqIgnoreAsciiCase t.2 name = true) ∧
    ∀ gm, args.gamemodeFilter = some gm → ∃ p, w.get t.1 = some p ∧ p.gamemode = gm := by
  rw [← withinDistance_eq_true]
  unfold kept
  cases args.nameFilter <;> cases args.gamemodeFilter <;> cases w.get t.1 <;>
    cases args.distanceMin <;> cases args.distanceMax <;> simp

/-- Whoever satisfies the filters is kept. -/
theorem Satisfies.kept (h : w.Satisfies args t) : w.kept exact args t = true := by
  rw [kept_eq_true]
  refine ⟨fun hgiven => ?_, h.name, h.gamemode⟩
  obtain ⟨p, hp, hmin, hmax⟩ := h.distance hgiven
  refine ⟨p, hp, Bool.and_eq_true_iff.2 ⟨?_, ?_⟩⟩
  · cases hlo : args.distanceMin with
    | none => rfl
    | some lo => simp [exact, ERat.sqrtLt_of_sqrtGe (hmin lo hlo)]
  · cases hhi : args.distanceMax with
    | none => rfl
    | some hi => simp [exact, ERat.sqrtGt_of_sqrtLe (hmax hi hhi)]

/-- **What satisfies the filters**: what the code keeps, if the bounds are numbers and the level is
in the range. -/
theorem satisfies_iff (hw : w.Numbers) : w.Satisfies args t ↔ w.kept exact args t = true ∧
    args.Bounds ∧ ∀ p, w.get t.1 = some p → args.InLevels p.xpLevel := by
  have hwithin : ∀ p, w.get t.1 = some p →
      (args.Within (w.dist p) ↔ args.passes exact (w.dist p) = true ∧ args.Bounds) :=
    fun p hp => args.within_iff (isSq_dist (hw p (mem_of_get hp)))
  rw [kept_eq_true]
  constructor
  · intro h
    refine ⟨kept_eq_true.1 h.kept, fun b hb => ?_, h.level⟩
    obtain ⟨p, hp, hin⟩ := h.distance (by rcases hb with hb | hb <;> simp [hb])
    exact ((hwithin p hp).1 hin).2 b hb
  · rintro ⟨⟨hdistance, hname, hgamemode⟩, hbounds, hlevel⟩
    refine ⟨fun hgiven => ?_, hname, hgamemode, hlevel⟩
    obtain ⟨p, hp, hpasses⟩ := hdistance hgiven
    exact ⟨p, hp, (hwithin p hp).2 ⟨hpasses, hbounds⟩⟩

end World

/-! ## Plain selectors -/

section Plain

variable {host : Host} {selector : String} {args : Args ERat} {s : Scene}

theorem Args.Plain.satisfies_iff (h : args.Plain selector) (hnum : s.world.Numbers)
    (t : Uuid × String) : s.world.Satisfies args t ↔ s.world.kept exact args t = true := by
  rw [World.satisfies_iff hnum]
  refine and_iff_left ⟨h.bounds, fun p hp => ?_⟩
  obtain ⟨hlow, hhigh⟩ := s.levels p (World.mem_of_get hp)
  exact h.levels p.xpLevel hlow hhigh

/-- The filters that a plain `@p` can have keep the nearest player if they keep anybody. -/
theorem kept_nearest (h : args.Plain "@p") (hnum : s.world.Numbers) {p q : Candidate ERat} 
    (hp : p ∈ s.world.players) (hq : q ∈ s.world.players)
    (hle : (s.world.dist q).lt (s.world.dist p) = false)
    (hkept : s.world.kept exact args q.target = true) :
    s.world.kept exact args p.target = true := by
  obtain ⟨hname, hgamemode, hmin⟩ := h.nearest rfl
  have hsq := World.isSq_dist (hnum p hp)
  have hsq' := World.isSq_dist (hnum q hq)
  rw [World.kept_eq_true] at hkept ⊢
  refine ⟨fun hgiven => ⟨p, World.get_of_mem hp, ?_⟩, by simp [hname], by simp [hgamemode]⟩
  obtain ⟨q', hq', hpasses⟩ := hkept.1 hgiven
  obtain rfl : q = q' := Option.some.inj ((World.get_of_mem hq).symm.trans hq')
  unfold Args.passes at hpasses ⊢
  rw [Bool.and_eq_true_iff] at hpasses ⊢
  constructor
  · cases hlo : args.distanceMin with
    | none => rfl
    | some lo =>
        have hbelow : exact.sqrtLt (s.world.dist p) lo = false :=
          ERat.sqrtLt_of_not_pos (hmin lo hlo) _
        simp [hbelow]
  · cases hhi : args.distanceMax with
    | none => rfl
    | some hi =>
        have habove : exact.sqrtGt (s.world.dist q) hi = false := by simpa [hhi] using hpasses.2
        have hp : exact.sqrtGt (s.world.dist p) hi = false := by
          by_contra hp
          rw [Bool.not_eq_false] at hp
          exact absurd (ERat.sqrtGt_mono hsq hsq' hle hp) (Bool.eq_false_iff.1 habove)
        simp [hp]

theorem means_of_plain (h : args.Plain selector) (hnum : s.world.Numbers) :
    s.world.Means args host selector
      (s.world.applySelectorFilters exact args (s.world.candidates exact host selector)) where
  filters t ht := (h.satisfies_iff hnum t).2 (World.mem_applySelectorFilters ht).2.1
  order := by
    rw [World.applySelectorFilters_eq]
    exact (World.sorted_pairwise hnum _).sublist (World.cut_sublist args _)
  limit n hn := World.length_applySelectorFilters_le hn
  nearest hselector hlimit q hq hsat := by
    subst hselector
    obtain ⟨p, hp, hnearest, hleast⟩ := World.nearestPlayer_spec hq
    have hkept := kept_nearest h hnum hp hq (hleast q hq) ((h.satisfies_iff hnum _).1 hsat)
    refine ⟨p, hp, ?_, fun q hq _ => hleast q hq⟩
    rw [← World.applySelectorFilters_singleton hkept hlimit]
    simp [World.candidates, hnearest]
  complete _ t ht hsat hnot := World.applySelectorFilters_complete
    (World.sorted_pairwise hnum _) ht ((h.satisfies_iff hnum t).1 hsat) hnot

/-- Any other selector but `@a` and `@e` has one candidate at most. -/
theorem length_candidates_le (w : World ERat) (h : ¬ (selector = "@a" ∨ selector = "@e")) :
    (w.candidates exact host selector).length ≤ 1 := by
  unfold World.candidates
  split
  · simp at h
  · simp at h
  · cases w.nearestPlayer exact <;> simp
  · cases w.players[(w.nanos.map (· % w.players.length)).getD 0]? <;> simp
  · cases w.source <;> simp
  · cases w.getByName host selector <;> simp

/-- One candidate is in order, and so are any that are not sorted by their distances. -/
theorem sorted_pairwise_of_blind (host : Host) (w : World ERat)
    (h : selector = "@a" ∨ selector = "@e" → args.sort ≠ .nearest ∧ args.sort ≠ .furthest) :
    (w.sorted exact args ((w.candidates exact host selector).filter (w.kept exact args))).Pairwise
      (w.InOrder args.sort) := by
  by_cases hselector : selector = "@a" ∨ selector = "@e"
  · obtain ⟨hnearest, hfurthest⟩ := h hselector
    refine List.pairwise_of_forall fun t u p q _ _ => ?_
    cases hsort : args.sort with
    | nearest => exact absurd hsort hnearest
    | furthest => exact absurd hsort hfurthest
    | random => trivial
    | arbitrary => trivial
  · have hlength : (w.sorted exact args
        ((w.candidates exact host selector).filter (w.kept exact args))).length ≤ 1 :=
      calc
        _ = _ := (w.sorted_perm exact args _).length_eq
        _ ≤ _ := List.length_filter_le _ _
        _ ≤ 1 := length_candidates_le w hselector
    exact List.pairwise_iff_getElem.2 fun i j hi hj hij => by omega

theorem means_of_blind (h : args.Blind selector) : s.world.Means args host selector
    (s.world.applySelectorFilters exact args (s.world.candidates exact host selector)) := by
  have hsorted := sorted_pairwise_of_blind host s.world h.sort
  have hsat : ∀ t, s.world.kept exact args t = true → s.world.Satisfies args t := by
    intro t ht
    obtain ⟨-, hname, hgamemode⟩ := World.kept_eq_true.1 ht
    refine ⟨by simp [h.min, h.max], hname, hgamemode, fun p hp => ?_⟩
    obtain ⟨hlow, hhigh⟩ := s.levels p (World.mem_of_get hp)
    exact h.levels p.xpLevel hlow hhigh
  refine ⟨fun t ht => hsat t (World.mem_applySelectorFilters ht).2.1, ?_,
    fun n hn => World.length_applySelectorFilters_le hn, ?_,
    fun _ t ht ht' hnot => World.applySelectorFilters_complete hsorted ht ht'.kept hnot⟩
  · rw [World.applySelectorFilters_eq]
    exact hsorted.sublist (World.cut_sublist args _)
  · rintro rfl hlimit q hq -
    obtain ⟨hname, hgamemode⟩ := h.nearest rfl
    obtain ⟨p, hp, hnearest, hleast⟩ := World.nearestPlayer_spec hq
    have hkept : s.world.kept exact args p.target = true := by
      rw [World.kept_eq_true]
      exact ⟨by simp [h.min, h.max], by simp [hname], by simp [hgamemode]⟩
    refine ⟨p, hp, ?_, fun q hq _ => hleast q hq⟩
    rw [← World.applySelectorFilters_singleton hkept hlimit]
    simp [World.candidates, hnearest]

end Plain

/-! ## Selectors that match nobody -/

section CanMatch

variable {host : Host} {selector : String} {args : Args ERat}

/-- Where some distance passes, so does the reach. -/
theorem passes_reach {d : ERat} (hd : d.IsSq) (h : args.passes exact d = true)
    (hself : selector = "@s" → d = 0) :
    args.passes exact ((args.reach selector).mul (args.reach selector)) = true := by
  have hzero := ERat.zero_mul_zero
  by_cases hs : selector = "@s"
  · rw [Args.reach, if_pos hs, hzero, ← hself hs]
    exact h
  obtain ⟨hmin, hmax⟩ := Bool.and_eq_true_iff.1 h
  -- the reach is not below the lower bound, and no distance that passes is below the reach
  suffices hreach : ((args.distanceMin.map fun lo =>
        ((args.reach selector).mul (args.reach selector)).sqrtLt lo).getD false) = false ∧
      ((args.reach selector).mul (args.reach selector)).IsSq ∧
      d.lt ((args.reach selector).mul (args.reach selector)) = false by
    obtain ⟨hlow, hsq, hle⟩ := hreach
    refine Bool.and_eq_true_iff.2 ⟨by simpa [exact] using hlow, ?_⟩
    cases hhi : args.distanceMax with
    | none => rfl
    | some hi =>
        have habove : d.sqrtGt hi = false := by simpa [hhi, exact] using hmax
        have hreach : ((args.reach selector).mul (args.reach selector)).sqrtGt hi = false := by
          by_contra hgt
          rw [Bool.not_eq_false] at hgt
          exact absurd (ERat.sqrtGt_mono hsq hd hle hgt) (Bool.eq_false_iff.1 habove)
        simp [exact, hreach]
  have hsq0 : ERat.IsSq 0 := Or.inr ⟨0, le_rfl, rfl⟩
  unfold Args.reach
  rw [if_neg hs]
  cases hlo : args.distanceMin with
  | none =>
      dsimp only
      rw [hzero]
      exact ⟨rfl, hsq0, hd.not_lt_zero⟩
  | some lo =>
      dsimp only
      cases hpos : ERat.lt 0 lo with
      | false =>
          rw [if_neg (by decide), hzero]
          exact ⟨ERat.sqrtLt_of_not_pos hpos 0, hsq0, hd.not_lt_zero⟩
      | true =>
          rw [if_pos rfl]
          have hbelow : d.sqrtLt lo = false := by simpa [hlo, exact] using hmin
          have hnan : lo ≠ .nan := by
            rintro rfl
            cases hpos
          exact ⟨ERat.sqrtLt_mul_self hpos, ERat.isSq_mul_self hnan,
            ERat.not_lt_mul_self hd hpos hbelow⟩

theorem passes_of_no_bounds (h : ¬ (args.distanceMin.isSome ∨ args.distanceMax.isSome)) (d : ERat) :
    args.passes exact d = true := by
  simp only [Option.isSome_iff_ne_none, ne_eq, not_or, not_not] at h
  simp [Args.passes, h.1, h.2]

/-- The asker is at distance 0 from itself. -/
theorem dist_source {w : World ERat} (hw : w.Numbers) {uuid : Uuid} {p : Candidate ERat}
    (hp : w.get uuid = some p) (hsource : w.source.uuid? = some uuid) : w.dist p = 0 := by
  have hnum := hw p (World.mem_of_get hp)
  have href : w.reference exact = p.position := by
    simp [World.reference, hsource, hp]
  unfold World.dist World.distSqAt at hnum ⊢
  rw [href] at hnum ⊢
  obtain ⟨hxy, hz⟩ := ERat.ne_nan_of_add hnum
  obtain ⟨hx, hy⟩ := ERat.ne_nan_of_add hxy
  have hsub : ∀ a : ERat, (a.sub a).mul (a.sub a) ≠ .nan → a.sub a = 0 :=
    fun a ha => ERat.sub_self_eq_zero (ERat.ne_nan_of_mul_self ha)
  simp only [exact]
  rw [hsub _ hx, hsub _ hy, hsub _ hz, ERat.zero_mul_zero, ERat.zero_add_zero, ERat.zero_add_zero]

/-- Who can be a target of a selector: of `@s` the asker, and of a name a player with it. -/
structure Named (host : Host) (selector : String) (w : World ERat) (t : Uuid × String) : Prop where
  self : selector = "@s" → w.source.uuid? = some t.1
  name : selector ∉ ["@a", "@e", "@p", "@r", "@s"] →
    host.toLowercase t.2 = host.toLowercase selector

theorem named_of_candidate {w : World ERat} {t : Uuid × String}
    (ht : t ∈ w.candidates exact host selector) : Named host selector w t where
  self := by
    rintro rfl
    cases hsource : w.source <;> simp_all [World.candidates, CommandSource.uuid?]
  name hselector := by
    have hcandidates : w.candidates exact host selector =
        ((w.getByName host selector).map Candidate.target).toList := by
      unfold World.candidates
      split
      all_goals first | rfl | (simp at hselector)
    rw [hcandidates, Option.mem_toList, Option.map_eq_some_iff] at ht
    obtain ⟨p, hp, rfl⟩ := ht
    have hname := List.find?_some hp
    exact of_decide_eq_true hname

variable {w : World ERat} {t : Uuid × String}

theorem reachable_of_kept (ht : Named host selector w t) (hkept : w.kept exact args t = true)
    (hlimit : args.limit ≠ some 0) : args.Reachable selector host where
  limit := hlimit
  name hselector := ⟨t.2, ht.name hselector, (World.kept_eq_true.1 hkept).2.1⟩

/-- **Whoever is matched, the arguments can match.** -/
theorem canMatch_of_kept (hw : w.Numbers) (ht : Named host selector w t)
    (hkept : w.kept exact args t = true) (hlimit : args.limit ≠ some 0) :
    args.CanMatch selector host where
  toReachable := reachable_of_kept ht hkept hlimit
  distance := by
    by_cases hgiven : args.distanceMin.isSome ∨ args.distanceMax.isSome
    · obtain ⟨p, hp, hpasses⟩ := (World.kept_eq_true.1 hkept).1 hgiven
      have hsq := World.isSq_dist (hw p (World.mem_of_get hp))
      exact passes_reach hsq hpasses fun hself => dist_source hw hp (ht.self hself)
    · exact passes_of_no_bounds hgiven _

/-- Arguments that keep nobody, but for the limit, mean their filters. -/
theorem means_of_nobody (h : ∀ t, Named host selector w t → w.kept exact args t = true →
      args.limit = some 0) : w.Means args host selector
    (w.applySelectorFilters exact args (w.candidates exact host selector)) := by
  have hnil : w.applySelectorFilters exact args (w.candidates exact host selector) = [] := by
    refine List.eq_nil_iff_forall_not_mem.2 fun t ht => ?_
    obtain ⟨hmem, hkept, hlimit⟩ := World.mem_applySelectorFilters ht
    exact hlimit (h t (named_of_candidate hmem) hkept)
  rw [hnil]
  refine ⟨by simp, List.Pairwise.nil, fun n _ => Nat.zero_le n, ?_, ?_⟩
  · rintro rfl hlimit q hq hsat
    exact absurd (h q.target ⟨by simp, by simp⟩ hsat.kept) hlimit
  · intro hselector t ht hsat _
    exact ⟨h t (named_of_candidate ht) hsat.kept, by simp⟩

theorem means_of_not_canMatch (hw : w.Numbers) (h : ¬ args.CanMatch selector host) :
    w.Means args host selector
      (w.applySelectorFilters exact args (w.candidates exact host selector)) := by
  refine means_of_nobody fun t ht hkept => ?_
  by_contra hlimit
  exact h (canMatch_of_kept hw ht hkept hlimit)

theorem means_of_not_reachable (h : ¬ args.Reachable selector host) :
    w.Means args host selector
      (w.applySelectorFilters exact args (w.candidates exact host selector)) := by
  refine means_of_nobody fun t ht hkept => ?_
  by_contra hlimit
  exact h (reachable_of_kept ht hkept hlimit)

end CanMatch

/-! ## Selectors that do not mean their filters -/

/-- Players at hand, seen from the console or by one of them. -/
def gathering (players : List (Candidate ERat)) (nodup : (players.map Candidate.uuid).Nodup)
    (source : CommandSource) : World ERat :=
  ⟨players, nodup, source, none, none⟩

/-- A player so far from where distances are measured. -/
def standing (uuid : Uuid) (username : String) (d : ERat) (gamemode : GameMode) (xpLevel : Int) :
    Candidate ERat :=
  ⟨uuid, username, (d, 64, 0), gamemode, xpLevel⟩

/-- A player whom the arguments match but for the distance. -/
def matching (args : Args ERat) (username : String) (d : ERat) (xpLevel : Int) : Candidate ERat :=
  standing 0 username d (args.gamemodeFilter.getD .survival) xpLevel

/-- That player alone; `@s` is about who asks. -/
def alone (args : Args ERat) (selector username : String) (d : ERat) (xpLevel : Int) :
    World ERat :=
  gathering [matching args username d xpLevel] (List.nodup_singleton _)
    (if selector = "@s" then .player 0 username else .console)

/-- A player with this name and mode, at distance 0. -/
def nearby (n : String × GameMode) : Candidate ERat := standing 1 n.1 0 n.2 0

/-- A player whom the arguments match and, listed first, one who is nearer. -/
def together (args : Args ERat) (username : String) (n : String × GameMode) : World ERat :=
  gathering [nearby n, matching args username (args.reach "@p") 0]
    (List.nodup_cons.2 ⟨by simp [nearby, matching, standing], List.nodup_singleton _⟩) .console

/-- A filter other than an upper bound leaves that player out. -/
def Args.LeavesOut (args : Args ERat) (n : String × GameMode) : Prop :=
  (∃ name, args.nameFilter = some name ∧ eqIgnoreAsciiCase n.1 name = false) ∨
    (∃ gm, args.gamemodeFilter = some gm ∧ n.2 ≠ gm) ∨
    ∃ lo, args.distanceMin = some lo ∧ ERat.lt 0 lo = true

section Scenes

variable {host : Host} {selector username : String} {args : Args ERat} {w : World ERat}

theorem dist_standing (href : w.reference exact = (0, 64, 0)) (uuid : Uuid) (username : String)
    (d : ERat) (gamemode : GameMode) (xpLevel : Int) :
    w.dist (standing uuid username d gamemode xpLevel) = d.mul d := by
  have h64 : ERat.sub 64 64 = 0 := ERat.sub_self_eq_zero (by decide)
  have h0 : ERat.sub 0 0 = 0 := ERat.sub_self_eq_zero (by decide)
  unfold World.dist World.distSqAt
  rw [href]
  simp only [exact, standing]
  rw [h64, h0, ERat.zero_mul_zero, ERat.sub_zero, ERat.add_zero, ERat.add_zero]

theorem reach_ne_nan (args : Args ERat) (selector : String) : args.reach selector ≠ .nan := by
  have h0 : (0 : ERat) ≠ .nan := by decide
  unfold Args.reach
  split
  · exact h0
  · cases args.distanceMin with
    | none => exact h0
    | some lo =>
        dsimp only
        split
        · rename_i hpos
          exact ERat.ne_nan_of_lt hpos
        · exact h0

theorem reference_alone (args : Args ERat) (selector username : String) (xpLevel : Int) :
    (alone args selector username (args.reach selector) xpLevel).reference exact = (0, 64, 0) := by
  by_cases hselector : selector = "@s"
  · simp [alone, gathering, hselector, World.reference, World.get, CommandSource.uuid?, matching,
      standing, Args.reach]
  · simp [alone, gathering, hselector, World.reference, CommandSource.uuid?]
    exact ⟨rfl, rfl, rfl⟩

theorem reference_together (args : Args ERat) (username : String) (n : String × GameMode) :
    (together args username n).reference exact = (0, 64, 0) := rfl

/-- The one player is the target of any selector that can match it. -/
theorem candidates_alone (hlower : selector ∉ ["@a", "@e", "@p", "@r", "@s"] →
      host.toLowercase username = host.toLowercase selector) (d : ERat) (xpLevel : Int) :
    (alone args selector username d xpLevel).candidates exact host selector =
      [(matching args username d xpLevel).target] := by
  unfold World.candidates
  split
  case h_6 =>
    have hname := hlower (by simp_all)
    simp [World.getByName, alone, gathering, matching, standing, hname]
  all_goals rfl

/-- Who stands at a distance that passes and has the right name is kept. -/
theorem kept_matching {d : ERat} {xpLevel : Int}
    (hget : w.get 0 = some (matching args username d xpLevel))
    (hname : ∀ name, args.nameFilter = some name → eqIgnoreAsciiCase username name = true)
    (hpasses : args.passes exact (w.dist (matching args username d xpLevel)) = true) :
    w.kept exact args (matching args username d xpLevel).target = true := by
  rw [World.kept_eq_true]
  refine ⟨fun _ => ⟨_, hget, hpasses⟩, hname, fun gm hgm => ⟨_, hget, ?_⟩⟩
  simp [matching, standing, hgm]

/-- Somebody with a name that the selector and the name filter accept. -/
theorem exists_username (h : args.Reachable selector host) : ∃ username,
    (selector ∉ ["@a", "@e", "@p", "@r", "@s"] →
      host.toLowercase username = host.toLowercase selector) ∧
    ∀ name, args.nameFilter = some name → eqIgnoreAsciiCase username name = true := by
  by_cases hselector : selector ∈ ["@a", "@e", "@p", "@r", "@s"]
  · refine ⟨args.nameFilter.getD "", fun hnot => absurd hselector hnot, fun name hname => ?_⟩
    simp [hname, eqIgnoreAsciiCase]
  · obtain ⟨username, hlower, hname⟩ := h.name hselector
    exact ⟨username, fun _ => hlower, hname⟩

/-- **Arguments that can match do match**, at any level. -/
theorem exists_target (h : args.CanMatch selector host) (xpLevel : Int) (hlow : -2 ^ 31 ≤ xpLevel)
    (hhigh : xpLevel < 2 ^ 31) : ∃ (s : Scene) (p : Candidate ERat), s.world.Numbers ∧
      p ∈ s.world.players ∧ p.xpLevel = xpLevel ∧ s.world.applySelectorFilters exact args
        (s.world.candidates exact host selector) = [p.target] := by
  obtain ⟨username, hlower, hname⟩ := exists_username h.toReachable
  have hplayers : (alone args selector username (args.reach selector) xpLevel).players =
      [matching args username (args.reach selector) xpLevel] := rfl
  have hdist : (alone args selector username (args.reach selector) xpLevel).dist
      (matching args username (args.reach selector) xpLevel) =
        (args.reach selector).mul (args.reach selector) :=
    dist_standing (reference_alone args selector username xpLevel) _ _ _ _ _
  refine ⟨⟨alone args selector username (args.reach selector) xpLevel, ?_⟩,
    matching args username (args.reach selector) xpLevel, ?_, List.mem_singleton_self _, rfl, ?_⟩
  · rw [hplayers, List.forall_mem_singleton]
    exact ⟨hlow, hhigh⟩
  · refine List.forall_mem_singleton.2 ?_
    rw [hdist]
    exact (ERat.isSq_mul_self (reach_ne_nan args selector)).ne_nan
  · have hkept := kept_matching (World.get_of_mem (hplayers ▸ List.mem_singleton_self _)) hname
      (hdist ▸ h.distance)
    rw [candidates_alone hlower, World.applySelectorFilters_singleton hkept h.limit]

/-- A distance that is no number passes any bounds. -/
theorem exists_target_nan (h : args.Reachable selector host) : ∃ (s : Scene) (p : Candidate ERat),
    p ∈ s.world.players ∧ s.world.dist p = .nan ∧ s.world.applySelectorFilters exact args
      (s.world.candidates exact host selector) = [p.target] := by
  obtain ⟨username, hlower, hname⟩ := exists_username h
  have hplayers : (alone args selector username .nan 0).players = [matching args username .nan 0] :=
    rfl
  have hdist : (alone args selector username .nan 0).dist (matching args username .nan 0) = .nan :=
    rfl
  refine ⟨⟨alone args selector username .nan 0, ?_⟩, matching args username .nan 0,
    List.mem_singleton_self _, hdist, ?_⟩
  · rw [hplayers, List.forall_mem_singleton]
    exact ⟨by simp [matching, standing], by simp [matching, standing]⟩
  · have hpasses : args.passes exact .nan = true := by
      unfold Args.passes
      cases args.distanceMin <;> cases args.distanceMax <;> rfl
    have hkept := kept_matching (World.get_of_mem (hplayers ▸ List.mem_singleton_self _)) hname
      (hdist ▸ hpasses)
    rw [candidates_alone hlower, World.applySelectorFilters_singleton hkept h.limit]

theorem dist_nearby (args : Args ERat) (username : String) (n : String × GameMode) :
    (together args username n).dist (nearby n) = 0 := by
  rw [nearby, dist_standing (reference_together args username n), ERat.zero_mul_zero]

theorem dist_together (args : Args ERat) (username : String) (n : String × GameMode) :
    (together args username n).dist (matching args username (args.reach "@p") 0) =
      (args.reach "@p").mul (args.reach "@p") :=
  dist_standing (reference_together args username n) _ _ _ _ _

theorem numbers_together (args : Args ERat) (username : String) (n : String × GameMode) :
    (together args username n).Numbers := by
  have hplayers : (together args username n).players =
      [nearby n, matching args username (args.reach "@p") 0] := rfl
  unfold World.Numbers
  rw [hplayers, List.forall_mem_cons, List.forall_mem_singleton, dist_nearby, dist_together]
  exact ⟨by decide, (ERat.isSq_mul_self (reach_ne_nan args "@p")).ne_nan⟩

/-- `@p` picks the first of the two. -/
theorem candidates_together (host : Host) (args : Args ERat) (username : String)
    (n : String × GameMode) :
    (together args username n).candidates exact host "@p" = [(nearby n).target] := by
  have hlt : ((together args username n).dist (matching args username (args.reach "@p") 0)).lt
      ((together args username n).dist (nearby n)) = false := by
    rw [dist_nearby, dist_together]
    exact (ERat.isSq_mul_self (reach_ne_nan args "@p")).not_lt_zero
  have hnearer : (together args username n).nearer exact (some (nearby n))
      (matching args username (args.reach "@p") 0) = some (nearby n) :=
    if_neg (Bool.eq_false_iff.1 hlt)
  have hfold : (together args username n).nearestPlayer exact = some (nearby n) := hnearer
  simp [World.candidates, hfold]

theorem Args.LeavesOut.not_kept {n : String × GameMode} (hout : args.LeavesOut n)
    (username : String) : (together args username n).kept exact args (nearby n).target = false := by
  have hget : (together args username n).get 1 = some (nearby n) := rfl
  rw [← Bool.not_eq_true, World.kept_eq_true]
  rintro ⟨hwithin, hfilter, hgamemode⟩
  rcases hout with ⟨name, hsome, hne⟩ | ⟨gm, hsome, hne⟩ | ⟨lo, hsome, hpos⟩
  · exact Bool.eq_false_iff.1 hne (hfilter name hsome)
  · obtain ⟨p, hp, hgm⟩ := hgamemode gm hsome
    obtain rfl := Option.some.inj (hget.symm.trans hp)
    exact hne hgm
  · obtain ⟨p, hp, hpasses⟩ := hwithin (by simp [hsome])
    obtain rfl := Option.some.inj (hget.symm.trans hp)
    rw [dist_nearby] at hpasses
    simp [Args.passes, hsome, exact, ERat.zero_sqrtLt hpos] at hpasses

/-- **A nearer player whom `@p` filters out hides the target.** -/
theorem exists_hidden (h : args.CanMatch "@p" host) (hbounds : args.Bounds)
    (hlevels : args.InLevels 0) {n : String × GameMode} (hout : args.LeavesOut n) :
    ∃ s : Scene, s.world.Numbers ∧ ¬ s.world.Means args host "@p"
      (s.world.applySelectorFilters exact args (s.world.candidates exact host "@p")) := by
  obtain ⟨username, -, hname⟩ := exists_username h.toReachable
  have hnumbers := numbers_together args username n
  have hget : (together args username n).get 0 =
      some (matching args username (args.reach "@p") 0) := rfl
  have hmem : matching args username (args.reach "@p") 0 ∈ (together args username n).players :=
    List.mem_cons_of_mem _ (List.mem_singleton_self _)
  have hnobody : (together args username n).applySelectorFilters exact args
      ((together args username n).candidates exact host "@p") = [] := by
    rw [candidates_together]
    refine List.eq_nil_iff_forall_not_mem.2 fun t ht => ?_
    obtain ⟨hfirst, hkept, -⟩ := World.mem_applySelectorFilters ht
    rw [List.mem_singleton.1 hfirst, hout.not_kept] at hkept
    cases hkept
  have hsat : (together args username n).Satisfies args
      (matching args username (args.reach "@p") 0).target := by
    have hkept := kept_matching hget hname (dist_together args username n ▸ h.distance)
    refine (World.satisfies_iff hnumbers).2 ⟨hkept, hbounds, fun p hp => ?_⟩
    obtain rfl := Option.some.inj (hget.symm.trans hp)
    exact hlevels
  refine ⟨⟨together args username n, ?_⟩, hnumbers, fun hmeans => ?_⟩
  · simp [together, gathering, nearby, matching, standing]
  · obtain ⟨p, -, hts, -⟩ := hmeans.nearest rfl h.limit _ hmem hsat
    dsimp only at hts
    rw [hnobody] at hts
    cases hts

/-- Players at these distances, the third at one that is no number. -/
def crowd (args : Args ERat) (username : String) (d : ERat × ERat × ERat) : World ERat :=
  gathering [standing 0 username d.1 (args.gamemodeFilter.getD .survival) 0,
    standing 1 username d.2.1 (args.gamemodeFilter.getD .survival) 0,
    standing 2 username .nan (args.gamemodeFilter.getD .survival) 0,
    standing 3 username d.2.2 (args.gamemodeFilter.getD .survival) 0] (by simp [standing]) .console

theorem mergeSort_four {α : Type} {le : α → α → Bool} {a b c d : α} (hab : le a b = false)
    (hcd : le c d = true) (hbc : le b c = true) (hac : le a c = true) :
    [a, b, c, d].mergeSort le = [b, a, c, d] := by
  simp [List.mergeSort, List.MergeSort.Internal.splitInTwo, hab, hcd, hbc, hac]

theorem candidates_crowd (hselector : selector = "@a" ∨ selector = "@e")
    (d : ERat × ERat × ERat) : (crowd args username d).candidates exact host selector =
      [(0, username), (1, username), (2, username), (3, username)] := by
  rcases hselector with rfl | rfl <;> rfl

/-- Without bounds of the distance the arguments match everybody there. -/
theorem satisfies_crowd (hmin : args.distanceMin = none) (hmax : args.distanceMax = none)
    (hlevels : args.InLevels 0)
    (hname : ∀ name, args.nameFilter = some name → eqIgnoreAsciiCase username name = true)
    {d : ERat × ERat × ERat} {p : Candidate ERat} (hp : p ∈ (crowd args username d).players) :
    (crowd args username d).Satisfies args p.target := by
  have hplayers : ∀ p ∈ (crowd args username d).players, p.username = username ∧
      p.gamemode = args.gamemodeFilter.getD .survival ∧ p.xpLevel = 0 := by
    simp [crowd, gathering, standing]
  obtain ⟨huser, hgm, -⟩ := hplayers p hp
  refine ⟨by simp [hmin, hmax], fun name hsome => ?_,
    fun gm hsome => ⟨p, World.get_of_mem hp, ?_⟩, fun q hq => ?_⟩
  · rw [Candidate.target, huser]
    exact hname name hsome
  · simp [hgm, hsome]
  · rw [(hplayers q (World.mem_of_get hq)).2.2]
    exact hlevels

/-- Where the second player comes first and must not come before the fourth, the selector does not
mean its filters. -/
theorem not_means_crowd (h : args.Reachable selector host)
    (hselector : selector = "@a" ∨ selector = "@e") {d : ERat × ERat × ERat}
    (hsat : ∀ p ∈ (crowd args username d).players,
      (crowd args username d).Satisfies args p.target)
    (hsorted : (crowd args username d).sorted exact args
      [(0, username), (1, username), (2, username), (3, username)] =
        [(1, username), (0, username), (2, username), (3, username)])
    (hnot : ¬ (crowd args username d).InOrder args.sort (1, username) (3, username)) :
    ¬ (crowd args username d).Means args host selector ((crowd args username d).applySelectorFilters
      exact args ((crowd args username d).candidates exact host selector)) := by
  intro hmeans
  have hsat' : ∀ t ∈ (crowd args username d).candidates exact host selector,
      (crowd args username d).Satisfies args t := by
    have htargets : (crowd args username d).candidates exact host selector =
        (crowd args username d).players.map Candidate.target := by
      rcases hselector with rfl | rfl <;> rfl
    rw [htargets, List.forall_mem_map]
    exact hsat
  have hts : (crowd args username d).applySelectorFilters exact args
      ((crowd args username d).candidates exact host selector) =
        World.cut args [(1, username), (0, username), (2, username), (3, username)] := by
    rw [World.applySelectorFilters_eq, List.filter_eq_self.2 fun t ht => (hsat' t ht).kept,
      candidates_crowd hselector, hsorted]
  obtain ⟨rest, hrest⟩ := World.cut_cons h.limit (1, username)
    [(0, username), (2, username), (3, username)]
  rw [hts, hrest] at hmeans
  by_cases hmem : (3, username) ∈ (1, username) :: rest
  · -- both are found
    have horder := List.pairwise_cons.1 hmeans.order
    exact hnot (horder.1 _ ((List.mem_cons.1 hmem).resolve_left (by simp)))
  · -- the fourth is left out
    have hselector' : selector ≠ "@p" := by
      rintro rfl
      simp at hselector
    have hmem' : (3, username) ∈ (crowd args username d).candidates exact host selector := by
      rw [candidates_crowd hselector]
      simp
    exact hnot ((hmeans.complete hselector' _ hmem' (hsat' _ hmem') hmem).2 _ List.mem_cons_self)

theorem distSq_crowd (args : Args ERat) (username : String) (d : ERat × ERat × ERat)
    (default : ERat) : (crowd args username d).distSq exact default 0 = d.1.mul d.1 ∧
      (crowd args username d).distSq exact default 1 = d.2.1.mul d.2.1 ∧
      (crowd args username d).distSq exact default 2 = .nan ∧
      (crowd args username d).distSq exact default 3 = d.2.2.mul d.2.2 :=
  ⟨dist_standing rfl _ _ _ _ _, dist_standing rfl _ _ _ _ _, rfl, dist_standing rfl _ _ _ _ _⟩

/-- **What is no number parts the numbers**, whichever way the players are sorted. -/
theorem exists_unsorted (h : args.Reachable selector host)
    (hselector : selector = "@a" ∨ selector = "@e") (hmin : args.distanceMin = none)
    (hmax : args.distanceMax = none) (hlevels : args.InLevels 0)
    (hsort : args.sort = .nearest ∨ args.sort = .furthest) :
    ∃ s : Scene, ¬ s.world.Means args host selector
      (s.world.applySelectorFilters exact args (s.world.candidates exact host selector)) := by
  obtain ⟨username, -, hname⟩ := exists_username h
  have hfit : ∀ d, ∀ p ∈ (crowd args username d).players,
      -2 ^ 31 ≤ p.xpLevel ∧ p.xpLevel < 2 ^ 31 := by
    simp [crowd, gathering, standing]
  have h35 : exact.lt (ERat.mul 3 3) (ERat.mul 5 5) = true :=
    ERat.mul_self_lt (by norm_num) (by norm_num)
  have h57 : exact.lt (ERat.mul 5 5) (ERat.mul 7 7) = true :=
    ERat.mul_self_lt (by norm_num) (by norm_num)
  rcases hsort with hsort | hsort
  · refine ⟨⟨crowd args username (7, 5, 3), hfit _⟩,
      not_means_crowd h hselector (fun p hp => satisfies_crowd hmin hmax hlevels hname hp) ?_
        fun horder => ?_⟩
    · obtain ⟨h0, h1, h2, h3⟩ := distSq_crowd args username (7, 5, 3) exact.greatest
      unfold World.sorted
      rw [hsort]
      apply mergeSort_four
      all_goals simp only [h0, h1, h2, h3, h57]
      all_goals rfl
    · rw [hsort] at horder
      have hlt := horder _ _ rfl rfl
      dsimp only at hlt
      rw [dist_standing rfl, dist_standing rfl] at hlt
      exact absurd (h35.symm.trans hlt) (by decide)
  · refine ⟨⟨crowd args username (3, 5, 7), hfit _⟩,
      not_means_crowd h hselector (fun p hp => satisfies_crowd hmin hmax hlevels hname hp) ?_
        fun horder => ?_⟩
    · obtain ⟨h0, h1, h2, h3⟩ := distSq_crowd args username (3, 5, 7) exact.least
      unfold World.sorted
      rw [hsort]
      apply mergeSort_four
      all_goals simp only [h0, h1, h2, h3, h35]
      all_goals rfl
    · rw [hsort] at horder
      have hlt := horder _ _ rfl rfl
      dsimp only at hlt
      rw [dist_standing rfl, dist_standing rfl] at hlt
      exact absurd (h57.symm.trans hlt) (by decide)

end Scenes

/-! ## The selectors that mean their filters -/

section Main

variable {host : Host} {selector : String} {args : Args ERat}

theorem canMatch_default (host : Host) (selector : String) : Args.CanMatch {} selector host where
  limit := by simp
  distance := rfl
  name _ := ⟨selector, rfl, by simp⟩

theorem plain_default (selector : String) : Args.Plain {} selector where
  bounds := by simp
  levels := by simp [Args.InLevels]
  nearest := by simp

theorem blind_default (selector : String) : Args.Blind {} selector where
  min := rfl
  max := rfl
  levels := by simp [Args.InLevels]
  nearest := by simp
  sort := by simp

/-- Arguments that mean their filters wherever distances are numbers are plain, if they can match
anybody. -/
theorem plain_of_means (h : args.CanMatch selector host)
    (hmeans : ∀ s : Scene, s.world.Numbers → s.world.Means args host selector
      (s.world.applySelectorFilters exact args (s.world.candidates exact host selector))) :
    args.Plain selector := by
  -- one player alone is a target, so it satisfies the filters
  have hsat : ∀ xpLevel : Int, -2 ^ 31 ≤ xpLevel → xpLevel < 2 ^ 31 →
      args.Bounds ∧ args.InLevels xpLevel := by
    intro xpLevel hlow hhigh
    obtain ⟨s, p, hnum, hp, rfl, hts⟩ := exists_target h xpLevel hlow hhigh
    have ht := (hmeans s hnum).filters p.target (by rw [hts]; exact List.mem_singleton_self _)
    obtain ⟨-, hbounds, hlevels⟩ := (World.satisfies_iff hnum).1 ht
    exact ⟨hbounds, hlevels p (World.get_of_mem hp)⟩
  obtain ⟨hbounds, hzero⟩ := hsat 0 (by decide) (by decide)
  refine ⟨hbounds, fun xpLevel hlow hhigh => (hsat xpLevel hlow hhigh).2, ?_⟩
  rintro rfl
  by_contra hfilters
  suffices hout : ∃ n : String × GameMode, args.LeavesOut n by
    obtain ⟨n, hout⟩ := hout
    obtain ⟨s, hnum, hs⟩ := exists_hidden h hbounds hzero hout
    exact hs (hmeans s hnum)
  cases hname : args.nameFilter with
  | some name =>
      refine ⟨(name ++ "x", .survival), Or.inl ⟨name, hname, ?_⟩⟩
      simp [eqIgnoreAsciiCase]
  | none =>
      cases hgamemode : args.gamemodeFilter with
      | some gm =>
          obtain ⟨gm', hne⟩ : ∃ gm' : GameMode, gm' ≠ gm := by
            cases gm with
            | survival => exact ⟨.creative, by simp⟩
            | _ => exact ⟨.survival, by simp⟩
          exact ⟨("", gm'), Or.inr (Or.inl ⟨gm, hgamemode, hne⟩)⟩
      | none =>
          simp only [hname, hgamemode, true_and] at hfilters
          push Not at hfilters
          obtain ⟨lo, hlo, hpos⟩ := hfilters
          exact ⟨("", .survival), Or.inr (Or.inr ⟨lo, hlo, by simpa using hpos⟩)⟩

/-- Arguments that mean their filters wherever players are look at no distance. -/
theorem blind_of_means (h : args.Reachable selector host)
    (hmeans : ∀ s : Scene, s.world.Means args host selector
      (s.world.applySelectorFilters exact args (s.world.candidates exact host selector))) :
    args.Blind selector := by
  -- the distance of a target may be no number, and such a one is in no range
  obtain ⟨hmin, hmax⟩ : args.distanceMin = none ∧ args.distanceMax = none := by
    obtain ⟨s, p, hp, hnan, hts⟩ := exists_target_nan h
    have ht := (hmeans s).filters p.target (by rw [hts]; exact List.mem_singleton_self _)
    by_contra hgiven
    obtain ⟨q, hq, hlow, hhigh⟩ := ht.distance (by
      by_contra hnone
      simp only [Option.isSome_iff_ne_none, ne_eq, not_or, not_not] at hnone
      exact hgiven hnone)
    obtain rfl := Option.some.inj ((World.get_of_mem hp).symm.trans hq)
    rw [hnan] at hlow hhigh
    cases hlo : args.distanceMin with
    | some lo => cases hlow lo hlo
    | none =>
        cases hhi : args.distanceMax with
        | some hi => cases hhigh hi hhi
        | none => exact hgiven ⟨hlo, hhi⟩
  have hcan : args.CanMatch selector host := ⟨h, passes_of_no_bounds (by simp [hmin, hmax]) _⟩
  have hplain := plain_of_means hcan fun s _ => hmeans s
  refine ⟨hmin, hmax, hplain.levels, fun hselector => ?_, fun hselector => ?_⟩
  · exact ⟨(hplain.nearest hselector).1, (hplain.nearest hselector).2.1⟩
  · by_contra hsort
    obtain ⟨s, hs⟩ := exists_unsorted h hselector hmin hmax
      (hplain.levels 0 (by decide) (by decide)) (by tauto)
    exact hs (hmeans s)

/-- **Exactly the sound selectors mean their filters** wherever distances are numbers, and exactly
the robust ones wherever players are. -/
theorem forall_means_iff (host : Host) (parseF64 : String → Option ERat) (target : String) :
    ((∀ s : Scene, s.world.Numbers → s.world.MeansFilters host parseF64 target) ↔
        Sound host parseF64 target) ∧
      ((∀ s : Scene, s.world.MeansFilters host parseF64 target) ↔
        Robust host parseF64 target) := by
  unfold World.MeansFilters Sound Robust World.targets
  obtain ⟨selector, argsStr⟩ := parseTargetWithArgs target
  cases argsStr with
  | none =>
      exact ⟨iff_of_true (fun s hnum => means_of_plain (plain_default selector) hnum) trivial,
        iff_of_true (fun s => means_of_blind (blind_default selector)) trivial⟩
  | some text =>
      dsimp only
      cases parseArgs host parseF64 text with
      | error e =>
          -- malformed arguments are taken for none at all
          obtain ⟨s, p, hnum, -, -, hts⟩ := exists_target (canMatch_default host selector) 0
            (by decide) (by decide)
          have hfound : s.world.applySelectorFilters exact {}
              (s.world.candidates exact host selector) ≠ [] := by
            rw [hts]
            exact List.cons_ne_nil _ _
          exact ⟨iff_of_false (fun h => hfound (h s hnum)) (by simp),
            iff_of_false (fun h => hfound (h s)) (by simp)⟩
      | ok args =>
          simp only [Except.ok.injEq, exists_eq_left']
          constructor
          · refine ⟨fun hmeans h => plain_of_means h hmeans, fun hsound s hnum => ?_⟩
            by_cases h : args.CanMatch selector host
            · exact means_of_plain (hsound h) hnum
            · exact means_of_not_canMatch hnum h
          · refine ⟨fun hmeans h => blind_of_means h hmeans, fun hrobust s => ?_⟩
            by_cases h : args.Reachable selector host
            · exact means_of_blind (hrobust h)
            · exact means_of_not_reachable h

end Main

/-- One player. -/
def single : Scene where
  world := alone {} "@a" "guest" 0 0
  levels := List.forall_mem_singleton.2 (by decide)

/-- **A limit that is not a number is no limit.** -/
theorem not_forall_meansFilters : ¬ ∀ (host : Host) (parseF64 : String → Option ERat)
    (target : String) (s : Scene), s.world.MeansFilters host parseF64 target := by
  intro h
  have hparse : parseTargetWithArgs "@a[limit=x]" = ("@a", some "limit=x".toList) := by decide
  have hargs : parseArgs guestHost (fun _ => (none : Option ERat)) "limit=x".toList =
      .error "Invalid limit: x" := rfl
  have hnobody := h guestHost (fun _ => none) "@a[limit=x]" single
  unfold World.MeansFilters World.targets at hnobody
  rw [hparse] at hnobody
  dsimp only at hnobody
  rw [hargs] at hnobody
  dsimp only at hnobody
  have hts : single.world.applySelectorFilters exact {}
      (single.world.candidates exact guestHost "@a") = [(0, "guest")] := rfl
  rw [hts] at hnobody
  cases hnobody

end Apoptotic.Commands.Targets
