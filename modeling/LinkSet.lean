import LinkSet.Main
import LinkSet.Proofs.Recognition
import LinkSet.Proofs.ClassForm
import LinkSet.Proofs.ConstantGrammar
import LinkSet.Proofs.FormUniqueness
import LinkSet.Proofs.ClassGrammar
import LinkSet.Proofs.PoolGrowth
import LinkSet.Proofs.Sealing
import LinkSet.Proofs.IndexLookup
import LinkSet.Proofs.Changed
import LinkSet.Proofs.Ruling
import LinkSet.Proofs.Runs
import LinkSet.Proofs.ClosedWorld
import LinkSet.Proofs.PoolRoom
import LinkSet.Proofs.Verdicts
import LinkSet.Proofs.Revisions
import LinkSet.Proofs.SecondRun
import LinkSet.Proofs.FlagRules
import LinkSet.Proofs.LinkNames
import LinkSet.Proofs.Masking
import LinkSet.Proofs.Accounting
import LinkSet.Proofs.ChangeReport
import LinkSet.Proofs.Reordering
import LinkSet.Proofs.SharedNames
import LinkSet.Proofs.OwnFailures
import LinkSet.Proofs.Packing
import LinkSet.Proofs.JarRoundTrip
import LinkSet.Proofs.FolderRoundTrip
import LinkSet.Proofs.FinalFlag
import LinkSet.Proofs.Shortage
import LinkSet.Proofs.SealingEnds
import LinkSet.Proofs.SlotNumbers
import LinkSet.Proofs.UnreadFiles
import LinkSet.Proofs.Confinement
import LinkSet.Proofs.CutShort
import LinkSet.Proofs.CodeUnits
import LinkSet.Proofs.NameGroups
import LinkSet.Proofs.SealedForms
import LinkSet.Proofs.FirstSlots
import LinkSet.Proofs.Resealing
import LinkSet.Proofs.Commuting
import LinkSet.Proofs.AddedTypes
import LinkSet.Proofs.Warnings
import LinkSet.Proofs.OptionTexts
import LinkSet.Proofs.CheckedCuts
import LinkSet.Proofs.Registrations
