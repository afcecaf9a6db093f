import Mathlib.Data.List.Dedup

/-! # Python's collections

A `dict` is the list of its items, in the order in which their keys were first
set.  The order in which a `set` is iterated depends on the hashes and on how it
was filled; `HashedSet` is any such order for the intersection of two sets.

`LruCache f maxSize` is `functools.lru_cache` around a function without effects.
It carries what makes it invisible: every value it holds is the one that the
function returns. -/

namespace SupportPilot.Lib

/-! ## Dictionaries -/

namespace Dict

variable {κ ν : Type*} [DecidableEq κ]

def get? (items : List (κ × ν)) (key : κ) : Option ν :=
  (items.find? fun item => item.1 = key).map Prod.snd

/-- `items[key] = value`. -/
def set (items : List (κ × ν)) (key : κ) (value : ν) : List (κ × ν) :=
  if items.any fun item => item.1 = key then
    items.map fun item => if item.1 = key then (key, value) else item
  else
    items ++ [(key, value)]

theorem get?_eq (items : List (κ × ν)) (key : κ) :
    get? items key = (items.find? fun item => item.1 = key).map Prod.snd := rfl

theorem set_eq (items : List (κ × ν)) (key : κ) (value : ν) :
    set items key value =
      if items.any fun item => item.1 = key then
        items.map fun item => if item.1 = key then (key, value) else item
      else
        items ++ [(key, value)] := rfl

/-- `{key: value for key, value in pairs}`. -/
def ofPairs (pairs : List (κ × ν)) : List (κ × ν) :=
  pairs.foldl (fun items pair => set items pair.1 pair.2) []

/-- `collections.Counter`. -/
def counter (keys : List κ) : List (κ × Nat) :=
  keys.foldl (fun items key => set items key ((get? items key).getD 0 + 1)) []

theorem mem_set {items : List (κ × ν)} {key : κ} {value : ν} {item : κ × ν}
    (member : item ∈ set items key value) : item = (key, value) ∨ item ∈ items := by
  rw [set_eq] at member
  split at member
  · obtain ⟨old, present, rfl⟩ := List.mem_map.mp member
    split
    · exact .inl rfl
    · exact .inr present
  · simpa [or_comm] using member

theorem mem_foldl_set {pairs items : List (κ × ν)} {item : κ × ν}
    (member : item ∈ pairs.foldl (fun items pair => set items pair.1 pair.2) items) :
    item ∈ pairs ∨ item ∈ items := by
  induction pairs generalizing items with
  | nil => exact .inr member
  | cons pair pairs ih =>
    obtain later | written := ih member
    · exact .inl (List.mem_cons_of_mem _ later)
    · obtain rfl | before := mem_set written
      · exact .inl List.mem_cons_self
      · exact .inr before

/-- The items were among the pairs. -/
theorem mem_ofPairs {pairs : List (κ × ν)} {item : κ × ν} (member : item ∈ ofPairs pairs) :
    item ∈ pairs := by
  obtain present | absent := mem_foldl_set member
  · exact present
  · cases absent

theorem get?_cons (item : κ × ν) (items : List (κ × ν)) (key : κ) :
    get? (item :: items) key = if item.1 = key then some item.2 else get? items key := by
  by_cases same : item.1 = key <;> simp [get?_eq, same]

theorem get?_append (items others : List (κ × ν)) (key : κ) :
    get? (items ++ others) key = (get? items key).or (get? others key) := by
  simp [get?_eq, Option.map_or]

theorem get?_eq_none {items : List (κ × ν)} {key : κ} :
    get? items key = none ↔ ∀ item ∈ items, item.1 ≠ key := by
  simp [get?_eq]

theorem mem_of_get? {items : List (κ × ν)} {key : κ} {value : ν}
    (found : get? items key = some value) : (key, value) ∈ items := by
  obtain ⟨item, isFirst, rfl⟩ := Option.map_eq_some_iff.mp found
  have same : item.1 = key := by simpa using List.find?_some isFirst
  rw [← same]
  exact List.mem_of_find?_eq_some isFirst

theorem get?_replaced (items : List (κ × ν)) (key : κ) (value : ν) (other : κ) :
    get? (items.map fun item => if item.1 = key then (key, value) else item) other =
      if key = other then (get? items other).map fun _ => value else get? items other := by
  induction items with
  | nil => simp [get?_eq]
  | cons item items ih =>
    rw [List.map_cons, get?_cons, get?_cons, ih]
    by_cases first : item.1 = key <;> by_cases same : key = other
    · simp [first, same]
    · simp [first, same]
    · simp [← same, first]
    · simp [first, same]

/-- Reading what was written. -/
theorem get?_set (items : List (κ × ν)) (key : κ) (value : ν) (other : κ) :
    get? (set items key value) other = if key = other then some value else get? items other := by
  rw [set_eq]
  split
  -- the key is there, and the value takes the place of the old one
  next present =>
    rw [get?_replaced]
    split
    next same =>
      subst same
      cases found : get? items key with
      | some old => rfl
      | none =>
        obtain ⟨item, member, isKey⟩ := List.any_eq_true.mp present
        exact absurd (of_decide_eq_true isKey) (get?_eq_none.1 found item member)
    · rfl
  -- a new item comes last
  next absent =>
    have unset : get? items key = none := by
      rw [get?_eq_none]
      intro item member same
      exact absent (List.any_eq_true.mpr ⟨item, member, by simpa using same⟩)
    rw [get?_append]
    by_cases same : key = other
    · rw [← same, unset, if_pos rfl]
      simp [get?_eq]
    · simp [get?_eq, same]

/-- A dictionary whose values are all mapped. -/
theorem get?_map {μ : Type*} (f : ν → μ) (items : List (κ × ν)) (key : κ) :
    get? (items.map fun item => (item.1, f item.2)) key = (get? items key).map f := by
  induction items with
  | nil => rfl
  | cons item items ih =>
    rw [List.map_cons, get?_cons, get?_cons, ih]
    split <;> rfl

/-- A dictionary that is computed from its keys. -/
theorem get?_tabulated (f : κ → ν) (keys : List κ) (key : κ) :
    get? (keys.map fun key => (key, f key)) key = if key ∈ keys then some (f key) else none := by
  induction keys with
  | nil => rfl
  | cons first keys ih =>
    rw [List.map_cons, get?_cons, ih]
    by_cases same : first = key
    · simp [same]
    · simp [same, Ne.symm same]

/-! ### Distinct keys -/

theorem not_mem_keys {items : List (κ × ν)} {key : κ} :
    key ∉ items.map Prod.fst ↔ get? items key = none := by
  rw [get?_eq_none]
  simp only [List.mem_map, not_exists, not_and, ne_eq]

theorem mem_keys_set {items : List (κ × ν)} {key other : κ} {value : ν} :
    other ∈ (set items key value).map Prod.fst ↔ other = key ∨ other ∈ items.map Prod.fst := by
  rw [← not_iff_not, not_or, not_mem_keys, not_mem_keys, get?_set]
  by_cases same : key = other
  · simp [same]
  · simp [same, Ne.symm same]

theorem nodup_set {items : List (κ × ν)} (distinct : (items.map Prod.fst).Nodup) (key : κ)
    (value : ν) : ((set items key value).map Prod.fst).Nodup := by
  rw [set_eq]
  split
  · have keys : (items.map fun item => if item.1 = key then (key, value) else item).map Prod.fst =
        items.map Prod.fst := by
      rw [List.map_map]
      apply List.map_congr_left
      intro item _
      by_cases same : item.1 = key <;> simp [same]
    rw [keys]
    exact distinct
  next absent =>
    have unset : key ∉ items.map Prod.fst := by
      intro member
      obtain ⟨item, present, same⟩ := List.mem_map.mp member
      exact absent (List.any_eq_true.mpr ⟨item, present, by simpa using same⟩)
    rw [List.map_append]
    exact distinct.append (List.nodup_singleton key) (by simpa using unset)

/-- A dictionary has one item for each key. -/
theorem nodup_ofPairs (pairs : List (κ × ν)) : ((ofPairs pairs).map Prod.fst).Nodup := by
  have general : ∀ (pairs items : List (κ × ν)), (items.map Prod.fst).Nodup →
      ((pairs.foldl (fun items pair => set items pair.1 pair.2) items).map Prod.fst).Nodup := by
    intro pairs
    induction pairs with
    | nil => exact fun _ distinct => distinct
    | cons pair pairs ih => exact fun items distinct => ih _ (nodup_set distinct pair.1 pair.2)
  exact general pairs [] List.nodup_nil

theorem mem_keys_ofPairs {pairs : List (κ × ν)} {key : κ} :
    key ∈ (ofPairs pairs).map Prod.fst ↔ key ∈ pairs.map Prod.fst := by
  have general : ∀ (pairs items : List (κ × ν)),
      key ∈ (pairs.foldl (fun items pair => set items pair.1 pair.2) items).map Prod.fst ↔
        key ∈ items.map Prod.fst ∨ key ∈ pairs.map Prod.fst := by
    intro pairs
    induction pairs with
    | nil => simp
    | cons pair pairs ih =>
      intro items
      rw [List.foldl_cons, ih, mem_keys_set, List.map_cons, List.mem_cons]
      tauto
  simpa [ofPairs] using general pairs []

theorem get?_eq_some {items : List (κ × ν)} (distinct : (items.map Prod.fst).Nodup) {key : κ}
    {value : ν} : get? items key = some value ↔ (key, value) ∈ items := by
  constructor
  · exact mem_of_get?
  · intro member
    cases found : get? items key with
    | none => exact absurd rfl (get?_eq_none.1 found _ member)
    | some other =>
      have same := List.inj_on_of_nodup_map distinct (mem_of_get? found) member rfl
      rw [(Prod.mk.inj same).2]

/-- Pairs with distinct keys are all kept. -/
theorem get?_ofPairs {pairs : List (κ × ν)} (distinct : (pairs.map Prod.fst).Nodup) {key : κ}
    {value : ν} : get? (ofPairs pairs) key = some value ↔ (key, value) ∈ pairs := by
  rw [get?_eq_some (nodup_ofPairs pairs)]
  constructor
  · exact mem_ofPairs
  · intro member
    have isKey : key ∈ (ofPairs pairs).map Prod.fst :=
      mem_keys_ofPairs.2 (List.mem_map_of_mem member)
    obtain ⟨item, kept, rfl⟩ := List.mem_map.mp isKey
    have same := List.inj_on_of_nodup_map distinct (mem_ofPairs kept) member rfl
    rwa [← same]

/-! ### Counters -/

/-- The keys of a counter are what was counted. -/
theorem mem_counter {keys : List κ} {item : κ × Nat} (member : item ∈ counter keys) :
    item.1 ∈ keys ∧ 0 < item.2 := by
  have general : ∀ (keys seen : List κ) (items : List (κ × Nat)),
      (∀ item ∈ items, item.1 ∈ seen ∧ 0 < item.2) →
      ∀ item ∈ keys.foldl (fun items key => set items key ((get? items key).getD 0 + 1)) items,
        item.1 ∈ seen ++ keys ∧ 0 < item.2 := by
    intro keys
    induction keys with
    | nil => simp
    | cons key keys ih =>
      intro seen items before item later
      have next := ih (seen ++ [key]) (set items key ((get? items key).getD 0 + 1)) ?_ item later
      · simpa using next
      · intro item written
        obtain rfl | old := mem_set written
        · simp
        · exact ⟨List.mem_append_left _ (before item old).1, (before item old).2⟩
  simpa using general keys [] [] (by simp) item member

theorem exists_mem_counter {keys : List κ} {key : κ} (member : key ∈ keys) :
    ∃ count, get? (counter keys) key = some count := by
  have general : ∀ (keys : List κ) (items : List (κ × Nat)),
      (key ∈ keys ∨ ∃ count, get? items key = some count) →
      ∃ count, get? (keys.foldl (fun items key => set items key ((get? items key).getD 0 + 1)) items)
        key = some count := by
    intro keys
    induction keys with
    | nil => simp
    | cons first keys ih =>
      intro items seen
      apply ih
      by_cases same : first = key
      · right
        exact ⟨_, by rw [get?_set, if_pos same]⟩
      · obtain counted | found := seen
        · exact .inl ((List.mem_cons.mp counted).resolve_left (Ne.symm same))
        · exact .inr (by simpa [get?_set, same] using found)
  exact general keys [] (.inl member)

end Dict

/-- `itertools.pairwise`. -/
def pairwise {α : Type*} (items : List α) : List (α × α) := items.zip items.tail

/-- The iteration order of `xs & ys`, for the sets that the two sequences fill. -/
class HashedSet (α : Type*) where
  inter : List α → List α → List α
  nodup_inter : ∀ xs ys, (inter xs ys).Nodup
  mem_inter : ∀ xs ys x, x ∈ inter xs ys ↔ x ∈ xs ∧ x ∈ ys

/-- The order of the first sequence. -/
@[reducible] def listedSets (α : Type*) [DecidableEq α] : HashedSet α where
  inter xs ys := xs.dedup.filter ys.contains
  nodup_inter xs ys := xs.nodup_dedup.filter _
  mem_inter xs ys x := by simp

/-! ## Caches -/

/-- The most recently used entry comes first. -/
structure LruCache {κ ν : Type*} (f : κ → ν) (maxSize : Nat) where
  entries : List (κ × ν)
  correct : ∀ entry ∈ entries, entry.2 = f entry.1
  bounded : entries.length ≤ maxSize

namespace LruCache

variable {κ ν : Type*} {f : κ → ν} {maxSize : Nat}

theorem correct_empty : ∀ entry ∈ ([] : List (κ × ν)), entry.2 = f entry.1 := nofun

def empty : LruCache f maxSize := ⟨[], correct_empty, Nat.zero_le maxSize⟩

variable [DecidableEq κ] (cache : LruCache f maxSize) (key : κ)

/-- The entry moves to the front. -/
def touched (entry : κ × ν) : List (κ × ν) :=
  entry :: cache.entries.eraseP fun other => other.1 = entry.1

theorem correct_touched {entry : κ × ν} (present : entry ∈ cache.entries) :
    ∀ other ∈ cache.touched entry, other.2 = f other.1 := by
  intro other member
  obtain rfl | kept := List.mem_cons.mp member
  · exact cache.correct other present
  · exact cache.correct other (List.mem_of_mem_eraseP kept)

theorem bounded_touched {entry : κ × ν} (present : entry ∈ cache.entries) :
    (cache.touched entry).length ≤ maxSize := by
  have fewer : (cache.entries.eraseP fun other => other.1 = entry.1).length =
      cache.entries.length - 1 := List.length_eraseP_of_mem present (decide_eq_true rfl)
  have positive : 0 < cache.entries.length := List.length_pos_of_mem present
  have bounded := cache.bounded
  simp only [touched, List.length_cons, fewer]
  omega

def touch (entry : κ × ν) (present : entry ∈ cache.entries) : LruCache f maxSize :=
  ⟨cache.touched entry, cache.correct_touched present, cache.bounded_touched present⟩

omit [DecidableEq κ] in
theorem correct_inserted :
    ∀ entry ∈ ((key, f key) :: cache.entries).take maxSize, entry.2 = f entry.1 := by
  intro entry member
  obtain rfl | before := List.mem_cons.mp (List.mem_of_mem_take member)
  · rfl
  · exact cache.correct entry before

omit [DecidableEq κ] in
theorem bounded_inserted : (((key, f key) :: cache.entries).take maxSize).length ≤ maxSize :=
  List.length_take_le ..

/-- A computed value comes to the front, and the last entry goes if there are too many. -/
def insert : LruCache f maxSize :=
  ⟨((key, f key) :: cache.entries).take maxSize, cache.correct_inserted key,
    cache.bounded_inserted key⟩

def find? : Option (κ × ν) := cache.entries.find? fun entry => entry.1 = key

variable {cache key}

theorem mem_of_find? {entry : κ × ν} (found : cache.find? key = some entry) :
    entry ∈ cache.entries :=
  List.mem_of_find?_eq_some found

variable (cache key)

/-- A call of the cached function. -/
def call : ν × LruCache f maxSize :=
  match found : cache.find? key with
  | some entry => (entry.2, cache.touch entry (mem_of_find? found))
  | none => (f key, cache.insert key)

/-- A cache is not seen in what the function returns. -/
@[simp] theorem call_fst : (cache.call key).1 = f key := by
  rw [call]
  split
  next entry found =>
    have same : entry.1 = key := by simpa using List.find?_some found
    change entry.2 = f key
    rw [← same]
    exact cache.correct entry (mem_of_find? found)
  · rfl

/-- Calls for each of the keys. -/
def callAll (cache : LruCache f maxSize) : List κ → List ν × LruCache f maxSize
  | [] => ([], cache)
  | key :: keys =>
    let (value, cache) := cache.call key
    let (values, cache) := cache.callAll keys
    (value :: values, cache)

@[simp] theorem callAll_fst (keys : List κ) :
    (cache.callAll keys).1 = keys.map f := by
  induction keys generalizing cache with
  | nil => rfl
  | cons key keys ih => simp [callAll, ih]

end LruCache

end SupportPilot.Lib
