import SupportPilot.Rag.Admission
import SupportPilot.Rag.Repository

/-! # The identities of the chunks of a version

Each packed list ends behind the one before it, so the chunks of a document end one behind
the other (`chunk_positions`) and no two have the same locators.  As long as the digests of
the identities at hand do not collide, `replace_version` then never violates a key of the
table (`replaceVersion_keys`). -/

namespace SupportPilot.Rag

open Lib Lib.Regex ChunkTokenizer StructureAwareChunker

/-- The block order and the end of the last locator. -/
def Chunk.lastPosition (chunk : Chunk) : Nat × Nat :=
  let last := chunk.locators.getLast chunk.locators_nonempty
  (last.blockIndex, last.charEnd)

/-- The position comes first: in an earlier block, or earlier in the same block. -/
def Precedes (left right : Nat × Nat) : Prop :=
  left.1 < right.1 ∨ left.1 = right.1 ∧ left.2 < right.2

section Positions

variable [WordChars] {budget : InputBudget} {document : CanonicalDocument}

/-! ## Where packed lists end -/

/-- Where the fragment ends. -/
def Fragment.position (fragment : Fragment) : Nat × Nat := (fragment.block.order, fragment.charEnd)

theorem precedes_of_before {f g : Fragment} (exact : f.Exact) (exact' : g.Exact)
    (before : ∀ x ∈ f.placed, ∀ y ∈ g.placed, Before x y) : Precedes f.position g.position := by
  obtain ⟨x, inFirst, atEnd⟩ := exact.last
  obtain ⟨y, inSecond, atEnd'⟩ := exact'.last
  have nonempty := (names_token ((Fragment.mem_tokens exact'.toAligned).mp inSecond).1).nonempty
  have order := before _ (Fragment.mem_placed.2 ⟨rfl, inFirst⟩) _
    (Fragment.mem_placed.2 ⟨rfl, inSecond⟩)
  obtain less | ⟨sameBlock, ends⟩ := order
  · exact .inl less
  · refine .inr ⟨congrArg CanonicalBlock.order sameBlock, ?_⟩
    dsimp only [Fragment.position] at ends ⊢
    omega

/-- The fragments of a list come one behind the other. -/
theorem fragments_sorted {fragments : List Fragment}
    (sorted : (fragments.flatMap Fragment.placed).Pairwise Before) :
    fragments.Pairwise fun f g => ∀ x ∈ f.placed, ∀ y ∈ g.placed, Before x y :=
  (List.pairwise_flatMap.mp sorted).2

/-- Each list of a section ends behind the one before it. -/
theorem packs_advance {group : List CanonicalBlock} {packs : List (List Fragment)}
    (member : group ∈ sections document.blocks)
    (returned : packBlocks budget document group = .ok packs) :
    packs.Pairwise fun pack pack' => ∀ f ∈ pack.getLast?, ∀ g ∈ pack'.getLast?,
      Precedes f.position g.position := by
  obtain ⟨fitted, spec⟩ := packBlocks_layout returned
  have sublist := List.sublist_flatten_of_mem member
  rw [flatten_sections] at sublist
  have sorted := kept_sorted (document.orders_sorted.sublist sublist)
  rw [← spec.tokens] at sorted
  have lasts := (fragments_sorted sorted).sublist spec.layout.lasts
  rw [List.pairwise_filterMap] at lasts
  apply lasts.imp_of_mem
  intro pack pack' left right ordered f isLast g isLast'
  have inFitted : ∀ {pack : List Fragment} {f : Fragment}, pack ∈ packs → f ∈ pack.getLast? →
      f ∈ fitted := fun present isLast =>
    spec.layout.lasts.subset (List.mem_filterMap.mpr ⟨_, present, isLast⟩)
  exact precedes_of_before (spec.exact f (inFitted left isLast))
    (spec.exact g (inFitted right isLast')) (ordered f isLast g isLast')

/-- So does each list of the document. -/
theorem lists_advance {lists : List (List (List Fragment))}
    (packed : List.Forall₂ (fun group packs => packBlocks budget document group = .ok packs)
      (sections document.blocks) lists) :
    lists.flatten.Pairwise fun pack pack' => ∀ f ∈ pack.getLast?, ∀ g ∈ pack'.getLast?,
      Precedes f.position g.position := by
  have apart : (sections document.blocks).Pairwise fun group group' =>
      ∀ b ∈ group, ∀ b' ∈ group', b.order < b'.order := by
    have sorted := document.orders_sorted
    rw [← flatten_sections document.blocks, List.pairwise_flatten] at sorted
    exact sorted.2
  rw [List.pairwise_flatten]
  constructor
  · intro packs present
    obtain ⟨group, member, returned⟩ := exists_of_mem_forall₂ packed present
    exact packs_advance member returned
  · apply pairwise_of_forall₂ packed apart
    intro group isSection group' isSection' packs packs' before returned returned'
      pack member pack' member' f isLast g isLast'
    left
    exact before _ ((section_ok isSection returned).fromBlocks pack member f
        (List.mem_of_getLast? isLast)).1 _
      ((section_ok isSection' returned').fromBlocks pack' member' g
        (List.mem_of_getLast? isLast')).1

/-! ## Where chunks end -/

/-- The merged fragments end where the last fragment ends. -/
theorem merged_last {init merged : List Fragment} {f : Fragment}
    (spec : Merged (init ++ [f]) merged)
    (sorted : ((init ++ [f]).map Fragment.block).Pairwise fun b b' => b.order ≤ b'.order)
    (behind : ∀ g ∈ init, g.block = f.block → g.charEnd ≤ f.charEnd) :
    ∃ m, merged.getLast? = some m ∧ m.position = f.position := by
  obtain ⟨m, member, sameBlock, -, covered⟩ := spec.covers f (by simp)
  -- no fragment of the block ends behind the last one
  have stops : m.charEnd = f.charEnd := by
    obtain ⟨g, present, same, atEnd⟩ := spec.stops m member
    rw [sameBlock] at same
    obtain earlier | last := List.mem_append.mp present
    · have := behind g earlier same
      omega
    · rw [List.mem_singleton.mp last] at atEnd
      exact atEnd.symm
  -- no fragment lies in a later block
  obtain ⟨front, rest, rfl⟩ := List.append_of_mem member
  have none : rest = [] := by
    rw [List.eq_nil_iff_forall_not_mem]
    intro m' later
    obtain ⟨g, present, same, -⟩ := spec.starts m' (by simp [later])
    have after : m.block.order < m'.block.order :=
      (List.pairwise_cons.mp (List.pairwise_append.mp spec.sorted).2.1).1 m' later
    rw [← same, sameBlock] at after
    rw [List.map_append, List.pairwise_append] at sorted
    obtain earlier | last := List.mem_append.mp present
    · have := sorted.2.2 _ (List.mem_map_of_mem earlier) f.block (by simp)
      omega
    · rw [List.mem_singleton.mp last] at after
      exact Nat.lt_irrefl _ after
  rw [none]
  refine ⟨m, List.getLast?_concat, ?_⟩
  rw [Fragment.position, Fragment.position, sameBlock, stops]

theorem pack_sorted {group : List CanonicalBlock} {packs : List (List Fragment)}
    (member : group ∈ sections document.blocks)
    (returned : packBlocks budget document group = .ok packs) {pack : List Fragment}
    (present : pack ∈ packs) : (pack.flatMap Fragment.placed).Pairwise Before := by
  obtain ⟨fitted, spec⟩ := packBlocks_layout returned
  have sublist := List.sublist_flatten_of_mem member
  rw [flatten_sections] at sublist
  have sorted := kept_sorted (document.orders_sorted.sublist sublist)
  rw [← spec.tokens] at sorted
  exact sorted.sublist (spec.layout.isInfix pack present).sublist

/-- A chunk ends where its packed list ends. -/
theorem lastPosition_eq {pack : List Fragment} {c : Chunk} (isPack : IsPack budget document pack)
    (isChunk : ChunkOf budget document pack c) :
    ∃ f ∈ pack.getLast?, c.lastPosition = f.position := by
  obtain ⟨some, aligned, ordered⟩ := isPack.ordered
  obtain ⟨group, member, packs, returned, present⟩ := isPack
  obtain rfl | ⟨init, f, rfl⟩ := List.eq_nil_or_concat' pack
  · exact absurd rfl some
  obtain ⟨merged, -⟩ := mergeFragments_ok aligned ordered
  have exact := (section_ok member returned).exact _ present
  have sorted := fragments_sorted (pack_sorted member returned present)
  rw [List.pairwise_append] at sorted
  obtain ⟨m, last, same⟩ := merged_last merged ordered.sorted fun g earlier sameBlock => by
    have precedes := precedes_of_before (exact g (by simp [earlier])) (exact f (by simp))
      (sorted.2.2 g earlier f (by simp))
    simp only [Precedes, Fragment.position, sameBlock] at precedes
    omega
  have located := mapM_eq_ok.1 isChunk.locators_eq
  have atLast := locates_of_ok (merged.aligned m (List.mem_of_getLast? last))
    (getLast_of_forall₂ located last c.locators_nonempty)
  refine ⟨f, List.getLast?_concat, ?_⟩
  rw [← same]
  simp only [Chunk.lastPosition, Fragment.position, atLast.blockIndex, atLast.charEnd]

variable [IdentityDigest] {chunks : List Chunk}

/-- Chunks end one behind the other. -/
theorem lastPositions_increase (returned : chunk budget document = .ok chunks) :
    chunks.Pairwise fun c c' => Precedes c.lastPosition c'.lastPosition := by
  obtain ⟨lists, packed, -, related⟩ := chunk_sections returned
  have isPack : ∀ pack ∈ lists.flatten, IsPack budget document pack := by
    intro pack member
    obtain ⟨packs, inLists, inside⟩ := List.mem_flatten.mp member
    obtain ⟨group, isSection, packed⟩ := exists_of_mem_forall₂ packed inLists
    exact ⟨group, isSection, packs, packed, inside⟩
  apply pairwise_of_forall₂ related (lists_advance packed)
  intro pack present pack' present' c c' advances isChunk isChunk'
  obtain ⟨f, isLast, same⟩ := lastPosition_eq (isPack pack present) isChunk
  obtain ⟨g, isLast', same'⟩ := lastPosition_eq (isPack pack' present') isChunk'
  rw [same, same']
  exact advances f isLast g isLast'

/-- Chunks are numbered from zero, and belong to the document's version. -/
theorem chunk_numbered (returned : chunk budget document = .ok chunks) :
    chunks.map Chunk.order = List.range chunks.length ∧
      ∀ c ∈ chunks, c.documentId = document.documentId ∧ c.versionId = document.versionId ∧
        c.chunkId = IdentityDigest.hexdigest ⟨c.documentId, c.versionId, c.text,
          c.locators.map SourceLocator.asDict⟩ := by
  obtain ⟨-, lists, -, folded⟩ := chunk_eq_ok.1 returned
  apply foldlM_ok (motive := fun _ chunks => chunks.map Chunk.order = List.range chunks.length ∧
    ∀ c ∈ chunks, c.documentId = document.documentId ∧ c.versionId = document.versionId ∧
      c.chunkId = IdentityDigest.hexdigest ⟨c.documentId, c.versionId, c.text,
        c.locators.map SourceLocator.asDict⟩) (by simp) _ folded
  intro done fragments chunks chunks' _ numbered added
  obtain ⟨orders, identities⟩ := numbered
  simp only [addChunk, bind_eq_ok] at added
  obtain ⟨locators, -, c, created, ⟨⟩, -, added⟩ := added
  cases added
  obtain ⟨chunkId, documentId, versionId, order, text, -, -, sameLocators, -⟩ :=
    Chunk.new_ok created
  rw [List.forall_mem_append, List.forall_mem_singleton]
  refine ⟨?_, identities, documentId, versionId, ?_⟩
  · rw [List.map_append, orders, List.map_singleton, Int.ofNat.inj order, List.length_append,
      List.length_singleton, List.range_succ]
  · rw [chunkId, documentId, versionId, text, sameLocators]

/-- No two chunks have the same locators. -/
theorem locators_differ (returned : chunk budget document = .ok chunks) :
    (chunks.map Chunk.locators).Nodup := by
  rw [List.nodup_iff_pairwise_ne, List.pairwise_map]
  apply (lastPositions_increase returned).imp
  intro c c' precedes same
  have position : c.lastPosition = c'.lastPosition := by
    simp only [Chunk.lastPosition, same]
  rw [position] at precedes
  obtain less | ⟨-, less⟩ := precedes <;> exact Nat.lt_irrefl _ less

end Positions

/-! ## Storing the chunks of a version -/

/-- The identity whose digest is the key of the row. -/
def DocumentChunk.identity (row : DocumentChunk) : ChunkIdentity :=
  ⟨row.documentId, row.versionId, row.originalText, row.locators⟩

theorem asDict_injective : Function.Injective SourceLocator.asDict := by
  intro left right same
  have read := storedLocator_asDict (fun _ => .error (.other 0)) left
  rw [same, storedLocator_asDict] at read
  exact (Except.ok.inj read).symm

/-- The digests of these identities tell them apart. -/
def CollisionFree [IdentityDigest] (identities : List ChunkIdentity) : Prop :=
  ∀ i ∈ identities, ∀ j ∈ identities,
    IdentityDigest.hexdigest i = IdentityDigest.hexdigest j → i = j

section Stored

variable [WordChars] [IdentityDigest] {home : UUID → UUID} {rows : List DocumentChunk}

/-- The tables that indexing and deleting documents lead to.  Each version belongs to one
workspace, as a trigger of the table checks. -/
inductive StoredChunks (home : UUID → UUID) : List DocumentChunk → Prop
  | empty : StoredChunks home []
  | replace {rows written : List DocumentChunk} {records : List EmbeddedChunk}
      (before : StoredChunks home rows) (budget : InputBudget) (document : CanonicalDocument)
      (chunked : chunk budget document = .ok (records.map EmbeddedChunk.chunk))
      (replaced : replaceVersion rows (home document.versionId) records = .ok written) :
      StoredChunks home written
  | delete {rows : List DocumentChunk} (before : StoredChunks home rows)
      (workspaceId documentId : UUID) :
      StoredChunks home (deleteDocumentChunks rows workspaceId documentId)

/-- What holds of the rows of the table. -/
structure Identified (home : UUID → UUID) (rows : List DocumentChunk) : Prop where
  scope : ∀ row ∈ rows, row.workspaceId = home row.versionId
  pipeline : ∀ row ∈ rows, row.pipelineVersion = PIPELINE.version
  digest : ∀ row ∈ rows, row.chunkId = IdentityDigest.hexdigest row.identity
  keys : ChunkKeys rows

omit [WordChars] [IdentityDigest] in
theorem ChunkKeys.sublist {rows rows' : List DocumentChunk} (keys : ChunkKeys rows)
    (sublist : rows'.Sublist rows) : ChunkKeys rows' :=
  ⟨keys.1.sublist (sublist.map _), keys.2.sublist (sublist.map _)⟩

omit [WordChars] in
theorem Identified.sublist {rows' : List DocumentChunk} (identified : Identified home rows)
    (sublist : rows'.Sublist rows) : Identified home rows' := by
  constructor
  case scope => exact fun row member => identified.scope row (sublist.subset member)
  case pipeline => exact fun row member => identified.pipeline row (sublist.subset member)
  case digest => exact fun row member => identified.digest row (sublist.subset member)
  case keys => exact identified.keys.sublist sublist

/-- The rows of new chunks. -/
theorem documentChunk_identified (home : UUID → UUID) {budget : InputBudget}
    {document : CanonicalDocument} {records : List EmbeddedChunk}
    (chunked : chunk budget document = .ok (records.map EmbeddedChunk.chunk)) :
    ∀ row ∈ records.map (documentChunk (home document.versionId)),
      row.versionId = document.versionId ∧ row.workspaceId = home row.versionId ∧
        row.pipelineVersion = PIPELINE.version ∧
        row.chunkId = IdentityDigest.hexdigest row.identity := by
  intro row member
  obtain ⟨record, present, rfl⟩ := List.mem_map.mp member
  obtain ⟨-, version, digest⟩ := (chunk_numbered chunked).2 _ (List.mem_map_of_mem present)
  exact ⟨version, congrArg home version.symm, rfl, digest⟩

theorem identified_of_stored (stored : StoredChunks home rows) : Identified home rows := by
  induction stored with
  | empty => exact ⟨by simp, by simp, by simp, by simp [ChunkKeys]⟩
  | replace before budget document chunked replaced ih =>
    obtain ⟨versionId, documentId, -, -, keys, rfl⟩ := replaceVersion_ok replaced
    have kept := ih.sublist (List.filter_sublist (p := fun row =>
      !(decide (row.workspaceId = home document.versionId) && decide (row.versionId = versionId) &&
        decide (row.pipelineVersion = PIPELINE.version))))
    have new := documentChunk_identified home chunked
    constructor
    case scope =>
      exact List.forall_mem_append.mpr ⟨kept.scope, fun row member => (new row member).2.1⟩
    case pipeline =>
      exact List.forall_mem_append.mpr ⟨kept.pipeline, fun row member => (new row member).2.2.1⟩
    case digest =>
      exact List.forall_mem_append.mpr ⟨kept.digest, fun row member => (new row member).2.2.2⟩
    case keys => exact keys
  | delete before workspaceId documentId ih => exact ih.sublist List.filter_sublist

theorem orders_nodup {budget : InputBudget} {document : CanonicalDocument}
    {records : List EmbeddedChunk}
    (chunked : chunk budget document = .ok (records.map EmbeddedChunk.chunk)) :
    (records.map fun record => record.chunk.order).Nodup := by
  have numbered := (chunk_numbered chunked).1
  rw [List.map_map] at numbered
  have same : (Chunk.order ∘ EmbeddedChunk.chunk) = fun record => record.chunk.order := rfl
  rw [← same, numbered]
  exact List.nodup_range

/-- New rows differ in both keys from each other. -/
theorem new_keys {budget : InputBudget} {document : CanonicalDocument}
    {records : List EmbeddedChunk} (workspaceId : UUID)
    (chunked : chunk budget document = .ok (records.map EmbeddedChunk.chunk))
    (collisionFree : CollisionFree ((records.map (documentChunk workspaceId)).map
      DocumentChunk.identity)) :
    ChunkKeys (records.map (documentChunk workspaceId)) := by
  have locators := locators_differ chunked
  have orders := orders_nodup chunked
  rw [List.map_map, List.nodup_iff_pairwise_ne, List.pairwise_map] at locators
  rw [List.nodup_iff_pairwise_ne, List.pairwise_map] at orders
  constructor
  · rw [List.map_map, List.nodup_iff_pairwise_ne, List.pairwise_map]
    apply locators.imp_of_mem
    intro record record' left right differ same
    obtain ⟨-, -, digest⟩ := (chunk_numbered chunked).2 _ (List.mem_map_of_mem left)
    obtain ⟨-, -, digest'⟩ := (chunk_numbered chunked).2 _ (List.mem_map_of_mem right)
    -- equal digests mean equal identities, and these hold the locators
    have identity : ∀ record ∈ records, (documentChunk workspaceId record).identity ∈
        (records.map (documentChunk workspaceId)).map DocumentChunk.identity :=
      fun record member => List.mem_map_of_mem (List.mem_map_of_mem member)
    have equal := collisionFree _ (identity record left) _ (identity record' right)
      (digest.symm.trans (same.trans digest'))
    exact differ (List.map_injective_iff.mpr asDict_injective
      (congrArg ChunkIdentity.locators equal))
  · rw [List.map_map, List.nodup_iff_pairwise_ne, List.pairwise_map]
    apply orders.imp
    intro record record' differ same
    exact differ (Int.ofNat.inj (congrArg (fun key => key.2.2) same))

omit [WordChars] [IdentityDigest] in
theorem ChunkKeys.append {kept new : List DocumentChunk} (keys : ChunkKeys kept)
    (keys' : ChunkKeys new)
    (apart : ∀ row ∈ kept, ∀ row' ∈ new, row.chunkId ≠ row'.chunkId ∧
      row.versionId ≠ row'.versionId) : ChunkKeys (kept ++ new) := by
  constructor
  · rw [List.map_append, List.nodup_append]
    refine ⟨keys.1, keys'.1, ?_⟩
    intro id left id' right
    obtain ⟨row, member, rfl⟩ := List.mem_map.mp left
    obtain ⟨row', member', rfl⟩ := List.mem_map.mp right
    exact (apart row member row' member').1
  · rw [List.map_append, List.nodup_append]
    refine ⟨keys.2, keys'.2, ?_⟩
    intro key left key' right same
    obtain ⟨row, member, rfl⟩ := List.mem_map.mp left
    obtain ⟨row', member', rfl⟩ := List.mem_map.mp right
    exact (apart row member row' member').2 (Prod.mk.inj same).1

/-- Storing the chunks of a version never violates a key of the table. -/
theorem replaceVersion_keys (stored : StoredChunks home rows) {budget : InputBudget}
    {document : CanonicalDocument} {records : List EmbeddedChunk}
    (chunked : chunk budget document = .ok (records.map EmbeddedChunk.chunk))
    (collisionFree : CollisionFree ((rows ++ records.map
      (documentChunk (home document.versionId))).map DocumentChunk.identity)) :
    replaceVersion rows (home document.versionId) records ≠ .error .integrityError := by
  have identified := identified_of_stored stored
  have new := documentChunk_identified home chunked
  cases records with
  | nil => simp [replaceVersion]
  | cons first rest =>
    have version : first.chunk.versionId = document.versionId :=
      ((chunk_numbered chunked).2 first.chunk (by simp)).2.1
    rw [replaceVersion]
    split
    · simp
    dsimp only
    rw [if_pos]
    · simp
    apply ChunkKeys.append
    · exact identified.keys.sublist List.filter_sublist
    · apply new_keys _ chunked
      intro i left j right
      rw [List.map_append] at collisionFree
      exact collisionFree i (List.mem_append_right _ left) j (List.mem_append_right _ right)
    · intro row member row' member'
      obtain ⟨present, kept⟩ := List.mem_filter.mp member
      obtain ⟨sameVersion, -, -, digest⟩ := new row' member'
      -- a row of this version would have been deleted
      have other : row.versionId ≠ row'.versionId := by
        intro same
        rw [sameVersion] at same
        have scope := identified.scope row present
        have pipeline := identified.pipeline row present
        rw [same] at scope
        simp [scope, same, pipeline, version] at kept
      refine ⟨?_, other⟩
      intro same
      rw [identified.digest row present, digest] at same
      have equal := collisionFree _ (List.mem_map_of_mem (List.mem_append_left _ present)) _
        (List.mem_map_of_mem (List.mem_append_right _ member')) same
      exact other (congrArg ChunkIdentity.versionId equal)

/-- The chunks of a document are numbered from zero, end one behind the other and differ in
their locators, and storing them violates no key. -/
theorem chunk_identities_distinct (budget : InputBudget) (document : CanonicalDocument)
    (chunks : List Chunk) (returned : chunk budget document = .ok chunks) :
    chunks.map Chunk.order = List.range chunks.length ∧
      (chunks.Pairwise fun c c' => Precedes c.lastPosition c'.lastPosition) ∧
      (chunks.map Chunk.locators).Nodup ∧
      ∀ home rows records, StoredChunks home rows → records.map EmbeddedChunk.chunk = chunks →
        CollisionFree ((rows ++ records.map (documentChunk (home document.versionId))).map
          DocumentChunk.identity) →
        (records.map fun record => record.chunk.chunkId).Nodup ∧
          (records.map fun record => record.chunk.order).Nodup ∧
          replaceVersion rows (home document.versionId) records ≠ .error .integrityError := by
  refine ⟨(chunk_numbered returned).1, lastPositions_increase returned, locators_differ returned,
    ?_⟩
  intro home rows records stored embedded collisionFree
  rw [← embedded] at returned
  have inner : CollisionFree ((records.map (documentChunk (home document.versionId))).map
      DocumentChunk.identity) := by
    intro i left j right
    rw [List.map_append] at collisionFree
    exact collisionFree i (List.mem_append_right _ left) j (List.mem_append_right _ right)
  have keys := (new_keys (home document.versionId) returned inner).1
  rw [List.map_map] at keys
  exact ⟨keys, orders_nodup returned, replaceVersion_keys stored returned collisionFree⟩

end Stored

theorem chunk_identities_distinct_headed :
    ∃ chunks, @chunk asciiWords unlimited fixedDigest headedDocument = .ok chunks ∧
      chunks.map Chunk.order = List.range chunks.length ∧ (chunks.map Chunk.locators).Nodup := by
  let := asciiWords
  let := fixedDigest
  have chunked : (chunk unlimited headedDocument).isOk = true := by decide
  cases result : chunk unlimited headedDocument with
  | error e =>
    rw [result] at chunked
    cases chunked
  | ok chunks =>
    obtain ⟨orders, -, locators, -⟩ :=
      chunk_identities_distinct unlimited headedDocument chunks result
    exact ⟨chunks, rfl, orders, locators⟩

end SupportPilot.Rag
