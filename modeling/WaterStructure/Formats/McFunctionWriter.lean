import WaterStructure.Formats.BatchEncoder
import WaterStructure.Library.Strips

/-!
# The boxes of the MCFunction writer

`write_mcfunction` clears the box of the structure and then places its blocks, batch by batch: every
row of chunks is cut into strips.
-/

namespace WaterStructure.McFunction

def airText : List Char := "minecraft:air".toList

/-- The fills that clear the box of a structure. -/
def clearAirFills (size : Size) : List Command :=
  (Box.pieces kFillEdge kFillEdge_pos
      ⟨⟨0, 0, 0⟩, ⟨size.width - 1, size.height - 1, size.length - 1⟩⟩).map fun piece =>
    .fill piece airText

def kChunkBatchSize : ℤ := 32

/-- A number of chunks, never zero. -/
abbrev BatchSize := {count : ℤ // 0 < count}

/-- The batches in order: a chunk row and its first chunk column. -/
def batchStarts (size : Size) (batchSize : BatchSize) : List (ℤ × ℤ) :=
  (Int.range 0 size.chunkZCount).flatMap fun chunkZ =>
    (Strips.strips batchSize.1 batchSize.2 0 (size.chunkXCount - 1)).map fun strip =>
      (chunkZ, strip.1)

/-- The bounds of a batch. -/
def batchBounds (size : Size) (batchSize : BatchSize) (start : ℤ × ℤ) : BatchBounds :=
  let batchEnd := min size.chunkXCount (start.2 + batchSize.1)
  { chunkZ := start.1
    batchX := start.2
    batchEnd
    xBegin := start.2 * 16
    xEnd := min size.width (batchEnd * 16)
    zBegin := start.1 * 16
    zEnd := min size.length (start.1 * 16 + 16) }

end WaterStructure.McFunction
