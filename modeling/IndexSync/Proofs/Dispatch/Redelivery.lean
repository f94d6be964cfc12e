import IndexSync.Proofs.Dispatch.Planned
import IndexSync.Proofs.Search.Documents

/-!
# A batch that is delivered again

The changes of a batch may have been made before, all of them or only the first. Once the batch is
dispatched again and commits, the documents are those of a single dispatch: under a key that it writes the
last write and the deletions after it decide, and under all others the deletions, which are made twice.
-/
namespace IndexSync
open Search

namespace Dispatch

variable {reader : EntityReader Site} {held : Store.Database → Prop}
  {answers : Identity → Option Entity} {s r : Site}

/-- Redelivery is harmless. A batch that is dispatched to an index which has received some of its changes
leaves the same documents as a dispatch to the index before. -/
theorem redelivered (unchanging : reader.Unchanging held answers) (ms : Mappings)
    (events : List CaptureEvent) (hs : held s.database) (hr : held r.database)
    (lawful : s.index.index.Lawful) (once : Commits reader ms events s) (made : List Change)
    (part : made <+: stagedOf reader ms events s)
    (received : r.index.index = (Index.applyAll ms made s.index.index).2)
    (again : Commits reader ms events r) :
    (batch (Site.surroundings reader ms) ms events r).2.index.index.Agrees
      (batch (Site.surroundings reader ms) ms events s).2.index.index := by
  obtain ⟨leads, honce⟩ := once.spec unchanging hs
  obtain ⟨leads', hagain⟩ := again.spec unchanging hr
  rw [leads'.unique leads] at hagain
  obtain ⟨rest, hrest⟩ := part
  rw [← hrest] at honce
  obtain ⟨between, hmade, -⟩ := Index.applyAll_parts honce
  rw [hmade] at received
  rw [received, ← hrest] at hagain
  obtain ⟨lawful', hbetween⟩ := Index.applyAll_spec lawful hmade
  obtain ⟨-, hsingle⟩ := Index.applyAll_spec lawful honce
  obtain ⟨-, htwice⟩ := Index.applyAll_spec lawful' hagain
  rw [Index.agrees_iff]
  intro type key hkey
  rw [htwice type key hkey, hbetween type key hkey, hsingle type key hkey]
  exact Change.actAll_again (List.prefix_append made rest)

/-- The register before the first house is built. -/
def unbuilt : Site := { ownerless with index := .empty }

/-- The second house has been written when the connection is lost. -/
def halfWay : Site :=
  { ownerless with
    index := ⟨⟨[(house, [(.int 2, [("id", .int 2), ("owner", .int 7)])])],
      [⟨.index, house, "id", .int 2⟩]⟩, []⟩ }

/-- The house whose owner is gone is not in the register, whether it was written before or not. -/
theorem redelivered_twoChanges :
    (batch (Site.surroundings secondHouse register) register twoChanges halfWay).2.index.index.Agrees
      (batch (Site.surroundings secondHouse register) register twoChanges unbuilt).2.index.index := by
  have once : Commits secondHouse register twoChanges unbuilt := commits_of_ok (by cbv)
  have again : Commits secondHouse register twoChanges halfWay := commits_of_ok (by cbv)
  have hsteps : steps (Site.surroundings secondHouse register) register 7
      (start (Site.surroundings secondHouse register) twoChanges unbuilt) =
      (.committing 0, { unbuilt with
        index := ⟨.empty, [⟨[secondDocument, seventhOwner], false⟩]⟩ }) := by cbv
  have hstaged : stagedOf secondHouse register twoChanges unbuilt =
      [secondDocument, seventhOwner] := by
    rw [stagedOf, commitOf, commitPoint_of_steps _ _ hsteps]
    rfl
  have part : [secondDocument] <+: stagedOf secondHouse register twoChanges unbuilt := by
    rw [hstaged]
    exact ⟨[seventhOwner], rfl⟩
  have received : halfWay.index.index =
      (Index.applyAll register [secondDocument] unbuilt.index.index).2 := by cbv
  exact redelivered (EntityReader.ofList_unchanging _) register twoChanges trivial trivial
    Index.lawful_empty once [secondDocument] part received again

end Dispatch
end IndexSync
