import ForestPager.Gather.Basic
import ForestPager.Gather.Identity
import ForestPager.Backend.Script
import ForestPager.History
import ForestPager.Main
import ForestPager.Proofs.Forest.Linked
import ForestPager.Proofs.Forest.Preorder
import ForestPager.Proofs.Forest.Kinship
import ForestPager.Proofs.Attempts
import ForestPager.Proofs.Composition
import ForestPager.Proofs.Driving
import ForestPager.Proofs.Numerals
import ForestPager.Proofs.Paging.Calls
import ForestPager.Proofs.Paging.Circling
import ForestPager.Proofs.Paging.Clock
import ForestPager.Proofs.Paging.Coverage
import ForestPager.Proofs.Paging.Length
import ForestPager.Proofs.Paging.Seen
import ForestPager.Proofs.Paging.Termination
import ForestPager.Proofs.Paging.Gathering
import ForestPager.Proofs.Provenance
import ForestPager.Proofs.Withholding
import ForestPager.Proofs.Forest.Reached
import ForestPager.Proofs.Forest.Linking
import ForestPager.Proofs.Outstanding
import ForestPager.Proofs.RequestedShape
import ForestPager.Proofs.Agreement
import ForestPager.Proofs.Reordering
import ForestPager.Proofs.Trees
import ForestPager.Proofs.Steps
import ForestPager.Proofs.Bookkeeping
import ForestPager.Proofs.Reports
import ForestPager.Proofs.PageByPage
import ForestPager.Proofs.RoundLimit
import ForestPager.Proofs.FirstOccurrences
import ForestPager.Proofs.Forest.Unbounded
import ForestPager.Proofs.Refusals
import ForestPager.Proofs.Body.ReadBack
