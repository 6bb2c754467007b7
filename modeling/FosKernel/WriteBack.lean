import Mathlib.Logic.Function.Basic
import Mathlib.Tactic.SplitIfs

/-!
# A cache that is written back

A store keeps its keys in two places : `cached` values, which come and go, and the `backing`
copies. What a key stands for is its cached value, and its backing copy while it has none
(`content`). An eviction drops a cached value, written back first if it is dirty; a fill
brings one key in.

`content_evict` : an eviction loses nothing if a key that is not dirty has its value for
backing copy. `content_of_agreesOff` : a fill changes the content of one key at most, and
`content_fill` says when it changes none.

Where the values have parts, `Faithful` says that the cache holds what is known of them : in the
content of every key, and in the backing copies of the cached keys that are not dirty. It is the
invariant of a cache that stands for a flat store, kept by evictions and fills (`Faithful.evict`,
`Faithful.fill`), by a store to one part of a cached key (`Faithful.store`), and by a change to
keys of which nothing is known any more (`Faithful.forget`).
-/

set_option linter.unusedSectionVars false

namespace WriteBack

variable {K V : Type*} [DecidableEq K] {k j : K} {v : V}

/-- A cache over its backing copies. -/
@[ext] structure Cache (K V : Type*) where
  cached : K → Option V
  backing : K → Option V

namespace Cache

variable {c c' : Cache K V}

/-- What a key stands for. -/
def content (c : Cache K V) (k : K) : Option V :=
  (c.cached k).or (c.backing k)

/-- Key `k` leaves the cache, and is written back if it is dirty. -/
def evict (c : Cache K V) (dirty : Bool) (k : K) : Cache K V where
  cached := Function.update c.cached k none
  backing := if dirty then Function.update c.backing k (c.cached k) else c.backing

/-- The two caches agree on every key but `k`. -/
def AgreesOff (k : K) (c c' : Cache K V) : Prop :=
  ∀ j ≠ k, c'.cached j = c.cached j ∧ c'.backing j = c.backing j

theorem content_of_cached (h : c.cached k = some v) : c.content k = some v := by
  rw [content, h, Option.some_or]

theorem content_of_not_cached (h : c.cached k = none) : c.content k = c.backing k := by
  rw [content, h, Option.none_or]

/-- Every value that is evicted is in its backing copy afterwards. -/
theorem backing_evict {dirty : Bool} (hclean : dirty = false → c.backing k = c.cached k) :
    (c.evict dirty k).backing k = c.cached k := by
  cases dirty with
  | true => exact Function.update_self _ _ _
  | false => exact hclean rfl

theorem agreesOff_evict (c : Cache K V) (dirty : Bool) (k : K) :
    AgreesOff k c (c.evict dirty k) := by
  refine fun j hj => ⟨Function.update_of_ne hj _ _, ?_⟩
  cases dirty with
  | true => exact Function.update_of_ne hj _ _
  | false => rfl

theorem content_of_agreesOff (h : AgreesOff k c c') (hj : j ≠ k) : c'.content j = c.content j := by
  obtain ⟨hcached, hbacking⟩ := h j hj
  rw [content, hcached, hbacking, content]

/-- An eviction loses nothing. -/
theorem content_evict {dirty : Bool} (hk : c.cached k = some v)
    (hclean : dirty = false → c.backing k = c.cached k) (j : K) :
    (c.evict dirty k).content j = c.content j := by
  by_cases hj : j = k
  · subst hj
    rw [content_of_cached hk, content_of_not_cached (Function.update_self _ _ _),
      backing_evict hclean, hk]
  · exact content_of_agreesOff (agreesOff_evict c dirty k) hj

/-- A fill with the backing copy changes nothing. -/
theorem content_fill (h : AgreesOff k c c') (hk : c.cached k = none)
    (hv : c'.cached k = c.backing k) (hcopy : (c.backing k).isSome) (j : K) :
    c'.content j = c.content j := by
  by_cases hj : j = k
  · subst hj
    obtain ⟨v, hv'⟩ := Option.isSome_iff_exists.1 hcopy
    rw [content_of_cached (hv.trans hv'), content_of_not_cached hk, hv']
  · exact content_of_agreesOff h hj

/-! ## A flat store behind a cache -/

section Faithful

variable {O B : Type*} [DecidableEq O] {flat flat' : K → O → Option B} {dirty dirty' : K → Prop}
  {c c' : Cache K (O → B)} {k : K} {w : O → B} {o : O} {b : B}

/-- The cache holds what is known of the parts of its values. -/
structure Faithful (flat : K → O → Option B) (dirty : K → Prop) (c : Cache K (O → B)) : Prop where
  content : ∀ {k o b}, flat k o = some b → ∃ v, c.content k = some v ∧ v o = b
  clean : ∀ {k o b}, flat k o = some b → (c.cached k).isSome → ¬dirty k →
    ∃ v, c.backing k = some v ∧ v o = b

theorem Faithful.cached (h : Faithful flat dirty c) (hb : flat k o = some b)
    (hk : c.cached k = some w) : w o = b := by
  obtain ⟨v, hv, rfl⟩ := h.content hb
  rw [content_of_cached hk] at hv
  rw [Option.some.inj hv]

/-- Off the keys of `S` the caches agree, and of the keys of `S` nothing is known any more. -/
theorem Faithful.forget {S : K → Prop} (h : Faithful flat dirty c)
    (hflat : ∀ {k o b}, flat' k o = some b → flat k o = some b ∧ ¬S k)
    (hc : ∀ k, ¬S k → c'.cached k = c.cached k ∧ c'.backing k = c.backing k)
    (hdirty : ∀ k, ¬S k → (dirty' k ↔ dirty k)) : Faithful flat' dirty' c' := by
  refine ⟨fun {k o b} hb => ?_, fun {k o b} hb hk hd => ?_⟩
  · obtain ⟨hb, hS⟩ := hflat hb
    rw [Cache.content, (hc k hS).1, (hc k hS).2]
    exact h.content hb
  · obtain ⟨hb, hS⟩ := hflat hb
    rw [(hc k hS).1] at hk
    rw [(hc k hS).2]
    exact h.clean hb hk ((hdirty k hS).not.1 hd)

/-- A key that leaves the cache is written back if it is dirty. -/
theorem Faithful.evict {d : Bool} (h : Faithful flat dirty c) (hk : c.cached k = some w)
    (hd : d = true ↔ dirty k) (hdirty : ∀ j ≠ k, (dirty' j ↔ dirty j)) :
    Faithful flat dirty' (c.evict d k) := by
  have hoff := agreesOff_evict c d k
  refine ⟨fun {j o b} hb => ?_, fun {j o b} hb hj hclean => ?_⟩
  · by_cases hjk : j = k
    · subst hjk
      rw [content_of_not_cached (Function.update_self _ _ _)]
      cases hcase : d with
      | true => exact ⟨w, (Function.update_self _ _ _).trans hk, h.cached hb hk⟩
      | false =>
        refine h.clean hb (hk ▸ rfl) fun hdj => ?_
        exact absurd (hcase.symm.trans (hd.2 hdj)) Bool.false_ne_true
    · rw [content_of_agreesOff hoff hjk]
      exact h.content hb
  · by_cases hjk : j = k
    · subst hjk
      have hnone : (c.evict d j).cached j = none := Function.update_self _ _ _
      rw [hnone] at hj
      cases hj
    · obtain ⟨hcached, hbacking⟩ := hoff j hjk
      rw [hcached] at hj
      rw [hbacking]
      exact h.clean hb hj ((hdirty j hjk).not.1 hclean)

/-- A key that comes into the cache brings its backing copy, if it has one. -/
theorem Faithful.fill (h : Faithful flat dirty c) (hoff : AgreesOff k c c')
    (hdirty : ∀ j ≠ k, (dirty' j ↔ dirty j)) (hk : c.cached k = none)
    (hcopy : ∀ v, c.backing k = some v → c'.cached k = some v ∧ c'.backing k = some v) :
    Faithful flat dirty' c' := by
  have hknown : ∀ {o b}, flat k o = some b → ∃ v, c.backing k = some v ∧ v o = b :=
    fun hb => content_of_not_cached hk ▸ h.content hb
  refine ⟨fun {j o b} hb => ?_, fun {j o b} hb hj hclean => ?_⟩
  · by_cases hjk : j = k
    · subst hjk
      obtain ⟨v, hv, hvb⟩ := hknown hb
      exact ⟨v, content_of_cached (hcopy v hv).1, hvb⟩
    · rw [content_of_agreesOff hoff hjk]
      exact h.content hb
  · by_cases hjk : j = k
    · subst hjk
      obtain ⟨v, hv, hvb⟩ := hknown hb
      exact ⟨v, (hcopy v hv).2, hvb⟩
    · obtain ⟨hcached, hbacking⟩ := hoff j hjk
      rw [hcached] at hj
      rw [hbacking]
      exact h.clean hb hj ((hdirty j hjk).not.1 hclean)

/-- A store to one part of a cached key makes the key dirty. -/
theorem Faithful.store (h : Faithful flat dirty c) (hoff : AgreesOff k c c')
    (hdirty : ∀ j ≠ k, (dirty' j ↔ dirty j)) (hk : c.cached k = some w)
    (hk' : c'.cached k = some (Function.update w o b)) (hd : dirty' k)
    (hflat : ∀ j p, flat' j p = if j = k ∧ p = o then some b else flat j p) :
    Faithful flat' dirty' c' := by
  refine ⟨fun {j p x} hb => ?_, fun {j p x} hb hj hclean => ?_⟩
  · rw [hflat] at hb
    by_cases hjk : j = k
    · subst hjk
      refine ⟨_, content_of_cached hk', ?_⟩
      split_ifs at hb with hp
      · obtain rfl := Option.some.inj hb
        rw [hp.2, Function.update_self]
      · rw [Function.update_of_ne fun hpo => hp ⟨rfl, hpo⟩]
        exact h.cached hb hk
    · rw [if_neg fun hc => hjk hc.1] at hb
      rw [content_of_agreesOff hoff hjk]
      exact h.content hb
  · by_cases hjk : j = k
    · exact absurd (hjk ▸ hd) hclean
    · rw [hflat, if_neg fun hc => hjk hc.1] at hb
      obtain ⟨hcached, hbacking⟩ := hoff j hjk
      rw [hcached] at hj
      rw [hbacking]
      exact h.clean hb hj ((hdirty j hjk).not.1 hclean)

end Faithful

end Cache

end WriteBack
