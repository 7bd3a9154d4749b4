import WaterStructure.Formats.RunAway
import WaterStructure.World.GridCoverage

/-!
# Runs of a RunAway object

Files are read, the offset is changed and chunks are asked for in any order. What the object shows is said
by a machine without an index, which keeps all blocks of the last file that could be read as they are
listed. Reading the file as it is parsed gives the blocks of the whole document.
-/

namespace WaterStructure

open FuHong (Registry)
open Kbdx (Block Buckets buildIndex lastBlocks lastAt)
open NestedLoop StatefulRun

namespace RunAway

variable {registry : Registry}

/-! ## What a file lists -/

/-- The blocks of a document. -/
def blocksOf (registry : Registry) (items : List Json) : Except String (List Block) :=
  (items.map Json.normal).zipIdx.mapM fun entry => blockOf registry entry.2 entry.1

/-- The box of the blocks is no larger than an `int32` size. -/
def Fits (blocks : List Block) : Prop :=
  (extent (minimum blocks) (maximum blocks)).width ≤ int32Max ∧
    (extent (minimum blocks) (maximum blocks)).height ≤ int32Max ∧
      (extent (minimum blocks) (maximum blocks)).length ≤ int32Max

instance (blocks : List Block) : Decidable (Fits blocks) := inferInstanceAs (Decidable (_ ∧ _ ∧ _))

/-- The blocks that are in a file, in order. -/
def blocksIn (registry : Registry) : File → Option (List Block)
  | .document (.array items) => (blocksOf registry items).toOption.filter fun blocks => blocks ≠ []
  | _ => none

/-- The blocks of a file that can be read. -/
def listed (registry : Registry) (file : File) : Option (List Block) :=
  (blocksIn registry file).filter fun blocks => Fits blocks

theorem ne_nil_of_blocksIn {file : File} {blocks : List Block} (h : blocksIn registry file = some blocks) :
    blocks ≠ [] := by
  rw [blocksIn.eq_def] at h
  split at h
  case h_1 => exact of_decide_eq_true (Option.filter_eq_some_iff.mp h).2
  case h_2 => cases h

/-- The entries are taken one after the other. -/
theorem foldlM_consumeEntry (entries : List Json) (p : Pass) :
    entries.foldlM (fun p entry => consumeEntry registry entry p) p =
      ((entries.zipIdx p.entryCount).mapM fun entry => blockOf registry entry.2 entry.1).map fun blocks =>
        { p with entryCount := p.entryCount + blocks.length, blocks := p.blocks ++ blocks } := by
  induction entries generalizing p with
  | nil =>
    rw [List.zipIdx_nil, List.mapM_nil]
    simp [pure, Except.pure, Except.map]
  | cons entry rest ih =>
    rw [List.foldlM_cons, List.zipIdx_cons, List.mapM_cons, consumeEntry]
    cases blockOf registry p.entryCount entry with
    | error error => rfl
    | ok block =>
      refine (ih _).trans ?_
      change _ = Except.map _ (_ >>= fun blocks => Except.ok (block :: blocks))
      cases (rest.zipIdx (p.entryCount + 1)).mapM fun entry => blockOf registry entry.2 entry.1 with
      | error error => rfl
      | ok blocks =>
        refine congrArg Except.ok ?_
        dsimp only
        rw [List.append_assoc, List.singleton_append, List.length_cons, Nat.add_right_comm, Nat.add_assoc]

theorem callback_one {p : Pass} (h : p.rootIsArray = true) (event : Json.ParseEvent) (parsed : Json) :
    callback registry 1 event parsed p =
      if event = .value ∨ event = .objectEnd ∨ event = .arrayEnd then
        (consumeEntry registry parsed p).map fun p => (false, p)
      else .ok (true, p) := by
  rw [callback, if_neg (by simp), if_neg (by simp), if_neg (by simp [h])]

/-- Nothing happens below the items of the root array. -/
theorem keeps_callback (p : Pass) : Json.Keeps (callback registry) 1 p := by
  intro depth event parsed hdepth
  rw [callback, if_neg fun h => by omega, if_neg fun h => by omega, if_pos (.inr (by omega))]

/-- A document is read as a whole. -/
theorem parseWith_callback (items : List Json) :
    Json.parseWith (callback registry) (.array items) {} = (blocksOf registry items).map fun blocks =>
      { rootIsArray := true, entryCount := blocks.length, blocks } := by
  have hitem (item : Json) (_ : item ∈ items) (p q : Pass) (h : p.rootIsArray = true ∧ p = q) :
      Alike (fun r q => r.2.rootIsArray = true ∧ r.2 = q)
        (Json.parseValue (callback registry) 1 true true item p) (consumeEntry registry item.normal q) := by
    obtain ⟨hroot, rfl⟩ := h
    rw [@Json.parseValue_taken _ (callback registry) item 1 p (consumeEntry registry) (keeps_callback p)
      (fun event parsed hevent => by
        rw [callback_one hroot]
        rcases hevent with rfl | rfl <;> rfl)
      (fun event parsed hevent => by
        rw [callback_one hroot, if_pos (by tauto)])]
    rw [consumeEntry]
    cases blockOf registry p.entryCount item.normal with
    | error error => exact .error error
    | ok block => exact .ok ⟨hroot, rfl⟩
  have hitems := @Json.parseItems_alike _ (callback registry) _
    (fun p q : Pass => p.rootIsArray = true ∧ p = q) 1 true true
    (fun p item => consumeEntry registry item.normal p) items hitem [] { rootIsArray := true } _ ⟨rfl, rfl⟩
  have hentries : items.foldlM (fun p item => consumeEntry registry item.normal p)
      { rootIsArray := true } = (blocksOf registry items).map fun blocks =>
        { rootIsArray := true, entryCount := blocks.length, blocks } := by
    rw [← List.foldlM_map (f := Json.normal) (g := fun p entry => consumeEntry registry entry p),
      foldlM_consumeEntry]
    simp [blocksOf]
  rw [hentries] at hitems
  change (Json.parseItems (callback registry) 1 true true items [] { rootIsArray := true } >>= fun r =>
    Json.parseEnd (callback registry) 0 .arrayEnd true (.array r.1) r.2).map Prod.snd = _
  generalize Json.parseItems (callback registry) 1 true true items [] { rootIsArray := true } = result at hitems ⊢
  generalize (blocksOf registry items).map _ = plain at hitems ⊢
  cases hitems with
  | error error => rfl
  | @ok r p h =>
    rw [ok_bind, Json.parseEnd, if_pos rfl, callback, if_neg (by simp), if_neg (by simp),
      if_pos (.inr Nat.zero_ne_one), ← h.2]
    rfl

/-- The blocks that are read are those of a document that is an array. -/
theorem readBlocks_eq (file : File) : (readBlocks registry file).toOption = blocksIn registry file := by
  cases file with
  | missing path => rfl
  | malformed entries error =>
    rw [readBlocks]
    cases entries.foldlM (fun p entry => consumeEntry registry entry p) {} with
    | error error => rfl
    | ok p => rfl
  | document value =>
    rw [readBlocks]
    cases value with
    | array items =>
      rw [parseWith_callback, blocksIn]
      cases blocksOf registry items with
      | error error => rfl
      | ok blocks =>
        cases blocks with
        | nil => rfl
        | cons block rest => rfl
    | object members =>
      -- The root is dropped at its start, and nothing below it is seen.
      have hidle (p : Pass) (hp : Except.ok {} = (Except.ok p : Except String Pass)) :
          Json.Idle (callback registry) 0 p := by
        cases hp
        intro depth event parsed hdepth
        exact ⟨true, by rw [callback, if_neg fun h => by omega, if_neg fun h => by omega, if_pos (.inl Bool.false_ne_true)]⟩
      rw [Json.parseWith, Json.parseValue_dropped (.object members) true rfl hidle]
      rfl
    | null | boolean | unsigned | integer | float | string => rfl

/-! ## The box of the blocks -/

theorem box_lastBlocks (blocks : List Block) :
    minimum (lastBlocks blocks) = minimum blocks ∧ maximum (lastBlocks blocks) = maximum blocks := by
  have hmem (axis : BlockPos → ℤ) (value : ℤ) : value ∈ (lastBlocks blocks).map (fun block => axis block.pos) ↔
      value ∈ blocks.map fun block => axis block.pos := by
    have haxis (blocks : List Block) : blocks.map (fun block => axis block.pos) = (blocks.map Block.pos).map axis :=
      List.map_map.symm
    rw [haxis, haxis, List.mem_map, List.mem_map]
    simp only [Kbdx.mem_pos_lastBlocks]
  simp only [minimum, maximum, Extremes.foldl_min_congr (hmem BlockPos.x), Extremes.foldl_min_congr (hmem BlockPos.y),
    Extremes.foldl_min_congr (hmem BlockPos.z), Extremes.foldl_max_congr (hmem BlockPos.x),
    Extremes.foldl_max_congr (hmem BlockPos.y), Extremes.foldl_max_congr (hmem BlockPos.z), and_self]

theorem contains_of_mem {blocks : List Block} {block : Block} (h : block ∈ blocks) :
    (extent (minimum blocks) (maximum blocks)).Contains (block.pos.sub (minimum blocks)) := by
  have hrange (axis : Block → ℤ) : (blocks.map axis).foldl min int32Max ≤ axis block ∧
      axis block ≤ (blocks.map axis).foldl max int32Min :=
    ⟨Extremes.foldl_min_le (List.mem_map_of_mem h) _, Extremes.le_foldl_max (List.mem_map_of_mem h) _⟩
  have hx := hrange (·.pos.x)
  have hy := hrange (·.pos.y)
  have hz := hrange (·.pos.z)
  simp only [Size.Contains, extent, BlockPos.sub, minimum, maximum]
  omega

/-! ## Runs -/

inductive Request where
  | read (file : File)
  | setOffset (offset : BlockPos)
  | getChunks (positions : List ChunkPos)

/-- What is shown: the blocks of the last file that could be read, and the offset. -/
structure Shown where
  blocks : List Block := []
  offset : BlockPos := ⟨0, 0, 0⟩

namespace Shown

def step (registry : Registry) (shown : Shown) : Request → Shown
  | .read file => (listed registry file).elim shown fun blocks => { blocks }
  | .setOffset offset => { shown with offset }
  | .getChunks _ => shown

def size (shown : Shown) : Size :=
  if shown.blocks = [] then ⟨0, 0, 0⟩ else extent (minimum shown.blocks) (maximum shown.blocks)

/-- The last block that is listed for a cell of the box. -/
def content (air : RuntimeId) (shown : Shown) (cell : BlockPos) : RuntimeId :=
  (lastAt shown.blocks (cell.add (minimum shown.blocks))).getD air

/-- The number of positions that are listed. -/
def positionCount (shown : Shown) : ℕ := (shown.blocks.map Block.pos).toFinset.card

theorem positionCount_eq (shown : Shown) : shown.positionCount = (lastBlocks shown.blocks).length := by
  rw [positionCount, ← List.length_map Block.pos,
    ← List.toFinset_card_of_nodup (Kbdx.lastBlocks_spec shown.blocks).1]
  refine congrArg Finset.card (Finset.ext fun pos => ?_)
  rw [List.mem_toFinset, List.mem_toFinset, Kbdx.mem_pos_lastBlocks]

end Shown

end RunAway

open RunAway

namespace RunAwayStructure

def perform (registry : Registry) (object : RunAwayStructure) : Request → RunAwayStructure
  | .read file => (object.read registry file).2
  | .setOffset offset => object.setOffset offset
  | .getChunks positions => (object.getChunks registry.airRuntimeId positions).2

/-- The object has the last block of each position, and an index of them or none. -/
structure Presents (registry : Registry) (object : RunAwayStructure) (shown : Shown) : Prop where
  blocks : object.blocks = (lastBlocks shown.blocks).map fun block =>
    { block with pos := block.pos.sub (minimum shown.blocks) }
  originalSize : object.originalSize = shown.size
  offset : object.offset = shown.offset
  size : object.size = shown.size.grow shown.offset
  nonAirBlocks : object.nonAirBlocks =
    (lastBlocks shown.blocks).countP fun block => block.runtimeId ≠ registry.airRuntimeId
  indexed : ∀ buckets, object.chunkIndex = some buckets → buildIndex object.blocks object.offset = some buckets

variable {registry : Registry} {object : RunAwayStructure} {shown : Shown}

theorem presents_empty (registry : Registry) : Presents registry {} {} :=
  ⟨rfl, rfl, rfl, rfl, rfl, fun _ h => by cases h⟩

theorem Presents.setOffset (h : Presents registry object shown) (offset : BlockPos) :
    Presents registry (object.setOffset offset) { shown with offset } :=
  ⟨h.blocks, h.originalSize, rfl, congrArg (Size.grow · offset) h.originalSize, h.nonAirBlocks,
    fun _ h => by cases h⟩

/-- A file is read exactly when it lists blocks, and otherwise nothing changes. -/
theorem read_cases (registry : Registry) (object : RunAwayStructure) (file : File) :
    (listed registry file = none ∧ ∃ error, object.read registry file = (.error error, object)) ∨
      ∃ blocks, listed registry file = some blocks ∧ (object.read registry file).1 = .ok () ∧
        Presents registry (object.read registry file).2 { blocks } := by
  have hread := @readBlocks_eq registry file
  rw [listed, ← hread, read]
  cases hblocks : readBlocks registry file with
  | error error => exact .inl ⟨rfl, error, rfl⟩
  | ok blocks =>
    rw [hblocks] at hread
    obtain ⟨hlow, hhigh⟩ := box_lastBlocks blocks
    dsimp only [Except.toOption]
    rw [hlow, hhigh, Option.filter_some]
    by_cases hfits : Fits blocks
    · rw [if_pos (decide_eq_true hfits), if_neg (by unfold Fits at hfits; omega)]
      have hsize : (object.load registry (lastBlocks blocks)).originalSize = (Shown.mk blocks ⟨0, 0, 0⟩).size := by
        rw [Shown.size, if_neg (ne_nil_of_blocksIn hread.symm), ← hlow, ← hhigh]
        rfl
      refine .inr ⟨blocks, rfl, rfl, ?_, hsize, rfl, congrArg (Size.grow · ⟨0, 0, 0⟩) hsize, rfl,
        fun _ h => by cases h⟩
      rw [← hlow]
      rfl
    · rw [if_neg fun h => hfits (of_decide_eq_true h), if_pos (by unfold Fits at hfits; omega)]
      exact .inl ⟨rfl, _, rfl⟩

/-- A request leaves the object as it is, but for an index of its blocks. -/
theorem Presents.getChunks (h : Presents registry object shown) (positions : List ChunkPos) :
    Presents registry (object.getChunks registry.airRuntimeId positions).2 shown := by
  rw [RunAwayStructure.getChunks]
  cases hindex : object.ensureIndex with
  | error error => exact h
  | ok buckets =>
    refine ⟨h.blocks, h.originalSize, h.offset, h.size, h.nonAirBlocks, fun found hfound => ?_⟩
    cases hfound
    rw [ensureIndex] at hindex
    split at hindex
    case h_1 buckets hbuckets =>
      cases hindex
      exact h.indexed _ hbuckets
    case h_2 =>
      split at hindex
      case h_1 => cases hindex
      case h_2 buckets hbuckets =>
        obtain ⟨-, hindex⟩ := else_of_ok hindex
        cases hindex
        exact hbuckets

theorem Presents.perform (h : Presents registry object shown) (request : Request) :
    Presents registry (object.perform registry request) (shown.step registry request) := by
  cases request with
  | read file =>
    rw [RunAwayStructure.perform, Shown.step]
    obtain ⟨hlisted, error, heq⟩ | ⟨blocks, hlisted, -, hpresents⟩ := read_cases registry object file
    · rw [hlisted, heq]
      exact h
    · rw [hlisted]
      exact hpresents
  | setOffset offset => exact h.setOffset offset
  | getChunks positions => exact h.getChunks positions

/-- Any requests keep the object what the machine without an index shows. -/
theorem presents_run (registry : Registry) (requests : List Request) :
    Presents registry (requests.foldl (perform registry) {}) (requests.foldl (Shown.step registry) {}) := by
  induction requests using List.reverseRecOn with
  | nil => exact presents_empty registry
  | append_singleton requests request ih =>
    rw [List.foldl_append, List.foldl_append]
    exact ih.perform request

/-- The blocks of the object are inside of its size. -/
theorem Presents.contains (h : Presents registry object shown) {block : Block} (hblock : block ∈ object.blocks) :
    shown.size.Contains block.pos := by
  rw [h.blocks] at hblock
  obtain ⟨kept, hkept, rfl⟩ := List.mem_map.mp hblock
  have hmem := (Kbdx.lastBlocks_spec shown.blocks).2.1 kept hkept
  rw [Shown.size, if_neg (List.ne_nil_of_mem hmem)]
  exact contains_of_mem hmem

/-- The offset moves the blocks to `int32` positions, also above the lowest layer. -/
theorem Presents.fits (h : Presents registry object shown) (hgrow : shown.size.CanGrow shown.offset)
    {block : Block} (hblock : block ∈ object.blocks) :
    (block.pos.add object.offset).FitsInt32 ∧ IsInt32 ((block.pos.add object.offset).y - 64) := by
  obtain ⟨hx, hy, hz⟩ := h.contains hblock
  obtain ⟨hwidth, hheight, hlength, ⟨hoffsetX, hoffsetY, hoffsetZ⟩, hlow⟩ := hgrow
  have hleX := le_abs_self shown.offset.x
  have hleY := le_abs_self shown.offset.y
  have hleZ := le_abs_self shown.offset.z
  rw [h.offset]
  simp only [BlockPos.FitsInt32, BlockPos.add, IsInt32, int32Min, int32Max] at *
  omega

/-- The ids that the object shows are those of the last blocks that are listed. -/
theorem Presents.lastValue_blocks (h : Presents registry object shown) (pos : BlockPos) :
    LastValue.lastValue (KbdxStructure.moved object.offset pos) object.blocks =
      lastAt shown.blocks ((pos.sub shown.offset).add (minimum shown.blocks)) := by
  have hmoved (block : Block) :
      KbdxStructure.moved shown.offset pos { block with pos := block.pos.sub (minimum shown.blocks) } =
        if block.pos = (pos.sub shown.offset).add (minimum shown.blocks) then some block.runtimeId else none := by
    refine if_congr ?_ rfl rfl
    rw [BlockPos.add_eq_iff, eq_comm, ← BlockPos.add_eq_iff, eq_comm]
  rw [h.blocks, h.offset, LastValue.lastValue_map, funext hmoved, (Kbdx.lastBlocks_spec shown.blocks).2.2]
  rfl

theorem Presents.ensureIndex (h : Presents registry object shown) (hgrow : shown.size.CanGrow shown.offset) :
    object.ensureIndex =
      (buildIndex object.blocks object.offset).elim (.error "RunAway chunk index 超过 uint32 容量") .ok := by
  rw [RunAwayStructure.ensureIndex]
  cases hindex : object.chunkIndex with
  | some buckets =>
    rw [h.indexed _ hindex]
    rfl
  | none =>
    have hany : ¬ (object.blocks.any fun block => ¬ (block.pos.add object.offset).FitsInt32) = true := by
      rw [List.any_eq_true]
      rintro ⟨block, hblock, hout⟩
      exact of_decide_eq_true hout (h.fits hgrow hblock).1
    cases buildIndex object.blocks object.offset with
    | none => rfl
    | some buckets => exact if_neg hany

/-- A block of the chunk is stored at its moved position. -/
theorem storeBlock_eq {air : RuntimeId} {block : Block} {index : ℕ} (hindex : object.blocks[index]? = some block)
    (hy : IsInt32 ((block.pos.add object.offset).y - 64)) {chunk : ChunkData} (hlayout : chunk.layout = .Internal) :
    object.storeBlock air (blockToChunk (block.pos.add object.offset)) chunk index =
      .ok (chunk.setAt air (block.pos.add object.offset) block.runtimeId) := by
  have hlocal (value : ℤ) : value - value / 16 * 16 = value % 16 := by omega
  rw [storeBlock, hindex]
  simp only [blockToChunk, floorDiv_sixteen]
  rw [if_neg (not_not_intro hy), ChunkData.setAt, hlayout]
  simp only [BlockLayerLayout.index, floorDiv_sixteen, floorMod_sixteen]
  rw [hlocal, hlocal, show (block.pos.add object.offset).y -
    (((block.pos.add object.offset).y - 64) / 16 * 16 + 64) = ((block.pos.add object.offset).y - 64) % 16 by omega]

/-- A request shows the last blocks at their moved positions. -/
theorem Presents.showsMoved (h : Presents registry object shown) (hgrow : shown.size.CanGrow shown.offset)
    (hcount : shown.positionCount ≤ 4294967295) :
    ShowsMoved registry.airRuntimeId (shown.content registry.airRuntimeId) shown.offset
      fun positions => (object.getChunks registry.airRuntimeId positions).1 := by
  have hlength : object.blocks.length ≤ 4294967295 := by
    rwa [h.blocks, List.length_map, ← Shown.positionCount_eq]
  obtain ⟨buckets, hbuckets⟩ := Kbdx.exists_buildIndex hlength object.offset
  intro positions
  dsimp only
  rw [RunAwayStructure.getChunks, h.ensureIndex hgrow, hbuckets]
  refine ChunkMap.shows_of_fill (fun chunkPos => ?_) positions
  obtain ⟨chunk, hchunk, hblocks⟩ := @Kbdx.fillBucket_ok registry.airRuntimeId _ _ _ hbuckets chunkPos
    (object.storeBlock registry.airRuntimeId chunkPos) fun index block chunk hget hpos hlayout => by
      subst hpos
      exact storeBlock_eq hget (h.fits hgrow (List.mem_of_getElem? hget)).2 hlayout
  refine ⟨chunk, hchunk, fun pos hpos => ?_⟩
  rw [hblocks pos hpos, h.lastValue_blocks]
  rfl

theorem Presents.count (h : Presents registry object shown) : object.countNonAirBlocks =
    blockCount registry.airRuntimeId (shown.content registry.airRuntimeId) shown.size := by
  rw [countNonAirBlocks, h.nonAirBlocks, blockCount]
  exact Kbdx.countP_lastBlocks registry.airRuntimeId fun block hblock => by
    rw [Shown.size, if_neg (List.ne_nil_of_mem hblock)]
    exact contains_of_mem hblock

/-- What a caller sees of an object. -/
structure Shows (registry : Registry) (object : RunAwayStructure) (shown : Shown) : Prop where
  offset : object.offset = shown.offset
  size : object.size = shown.size.grow shown.offset
  count : object.countNonAirBlocks =
    blockCount registry.airRuntimeId (shown.content registry.airRuntimeId) shown.size
  chunks : shown.size.CanGrow shown.offset →
    if shown.positionCount ≤ 4294967295 then
      ShowsMoved registry.airRuntimeId (shown.content registry.airRuntimeId) shown.offset
        fun positions => (object.getChunks registry.airRuntimeId positions).1
    else ∀ positions, (object.getChunks registry.airRuntimeId positions).1 =
      .error "RunAway chunk index 超过 uint32 容量"
  reads : ∀ file, (object.read registry file).1 = .ok () ↔ (listed registry file).isSome
  fails : ∀ file, listed registry file = none → (object.read registry file).2 = object

/-- Whatever is read and requested, an object shows what the last file that could be read lists: of the
blocks at one position the last one, moved to the minimum and by the offset. A file that cannot be read
changes nothing. -/
theorem shows_run (registry : Registry) (requests : List Request) :
    Shows registry (requests.foldl (perform registry) {}) (requests.foldl (Shown.step registry) {}) := by
  have h := presents_run registry requests
  generalize requests.foldl (perform registry) {} = object at h ⊢
  generalize requests.foldl (Shown.step registry) {} = shown at h ⊢
  refine ⟨h.offset, h.size, h.count, fun hgrow => ?_, fun file => ?_, fun file hnone => ?_⟩
  · split
    case isTrue hcount => exact h.showsMoved hgrow hcount
    case isFalse hcount =>
      intro positions
      have hbuild : buildIndex object.blocks object.offset = none := by
        rw [Shown.positionCount_eq, ← List.length_map, ← h.blocks] at hcount
        exact if_pos (Nat.not_le.mp hcount)
      rw [RunAwayStructure.getChunks, h.ensureIndex hgrow, hbuild]
      rfl
  · obtain ⟨hlisted, error, heq⟩ | ⟨blocks, hlisted, hok, -⟩ := read_cases registry object file
    · rw [hlisted, heq]
      exact iff_of_false (fun h => by cases h) (fun h => by cases h)
    · rw [hlisted, hok]
      exact iff_of_true rfl rfl
  · obtain ⟨-, error, heq⟩ | ⟨blocks, hlisted, -⟩ := read_cases registry object file
    · rw [heq]
    · rw [hnone] at hlisted
      cases hlisted

/-- A RunAway object as a structure that can be moved. -/
def offsetReader (registry : Registry) : OffsetReader RunAwayStructure where
  size object := object.size
  setOffset := setOffset
  getChunks object positions :=
    let result := object.getChunks registry.airRuntimeId positions
    result.1.map fun chunks => (chunks, result.2)
  countNonAirBlocks object := .ok (object.countNonAirBlocks, object)

/-- The grid covers what an object shows, a conversion writes it and the count is right, exactly when no
block is moved below zero. -/
theorem covers_iff_staysInGrid {registry : Registry} {requests : List Request}
    (hgrow : (requests.foldl (Shown.step registry) {}).size.CanGrow
      (requests.foldl (Shown.step registry) {}).offset)
    (hcount : (requests.foldl (Shown.step registry) {}).positionCount ≤ 4294967295) :
    let shown := requests.foldl (Shown.step registry) {}
    let content := shown.content registry.airRuntimeId
    (offsetReader registry).Exact registry.airRuntimeId content shown.size
      (requests.foldl (perform registry) {}) ↔ StaysInGrid registry.airRuntimeId content shown.offset := by
  have h := presents_run registry requests
  have hcounted := (presents_run registry requests).count
  generalize requests.foldl (perform registry) {} = object at h hcounted ⊢
  intro shown content
  have hinside (cell : BlockPos) (hcell : content cell ≠ registry.airRuntimeId) : shown.size.Contains cell := by
    cases hlast : lastAt shown.blocks (cell.add (minimum shown.blocks)) with
    | none => exact absurd (congrArg (Option.getD · registry.airRuntimeId) hlast) hcell
    | some id =>
      obtain ⟨block, hblock, hpos⟩ := LastValue.exists_of_lastValue hlast
      obtain ⟨heq, -⟩ := then_of_some hpos
      have hcontains := contains_of_mem hblock
      rw [heq, BlockPos.add_sub] at hcontains
      rwa [Shown.size, if_neg (List.ne_nil_of_mem hblock)]
  have hchunks : (fun positions => ((offsetReader registry).getChunks object positions).map Prod.fst) =
      fun positions => (object.getChunks registry.airRuntimeId positions).1 := by
    funext positions
    simp only [offsetReader]
    cases (object.getChunks registry.airRuntimeId positions).1 <;> rfl
  have hshows := h.showsMoved hgrow hcount
  rw [← hchunks] at hshows
  have hcovers := gridCovers_iff hinside hshows
  rw [← h.size] at hcovers
  exact ⟨fun hexact => hcovers.mp hexact.1, fun hstays => ⟨hcovers.mpr hstays,
    fun Nbt getChunkNbt => conversionWrites_of_covers hshows (hcovers.mpr hstays),
    congrArg Except.ok hcounted⟩⟩

/-- A registry with one block, which is named without its namespace in the file. -/
def stoneRegistry : Registry :=
  ⟨0, fun _ => none, fun _ _ => none, fun name _ => if name = "minecraft:stone".toList then some 1 else none,
    fun _ => none, fun _ => 0⟩

/-- A file with a block that is moved below zero. -/
def movedStone : List Request :=
  [.read (.document (.array [.object [("name".toList, .string "stone".toList), ("x".toList, .unsigned 7),
    ("y".toList, .unsigned 3), ("z".toList, .array [.integer (-5)])]])), .setOffset ⟨-1, 0, 0⟩]

theorem covers_iff_staysInGrid_movedStone :
    let shown := movedStone.foldl (Shown.step stoneRegistry) {}
    (offsetReader stoneRegistry).Exact 0 (shown.content 0) shown.size
      (movedStone.foldl (perform stoneRegistry) {}) ↔ StaysInGrid 0 (shown.content 0) shown.offset :=
  @covers_iff_staysInGrid stoneRegistry movedStone (by decide +kernel) (by decide +kernel)

end RunAwayStructure

end WaterStructure
