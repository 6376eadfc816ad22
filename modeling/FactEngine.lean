import FactEngine.Config.File
import FactEngine.Exclusion
import FactEngine.Analysis.Script
import FactEngine.Proofs.Registration
import FactEngine.Proofs.Resolution
import FactEngine.Proofs.Resolvability
import FactEngine.Proofs.Batches
import FactEngine.Proofs.Graph
import FactEngine.Proofs.Run
import FactEngine.Proofs.Session
import FactEngine.Proofs.Preparation
import FactEngine.Proofs.Replacement
import FactEngine.Proofs.Coherence
import FactEngine.Proofs.History
import FactEngine.Proofs.Downstream
import FactEngine.Proofs.Freshness
import FactEngine.Proofs.Declared
import FactEngine.Proofs.Effect
import FactEngine.Proofs.Executions
import FactEngine.Proofs.Sorting
import FactEngine.Proofs.Meaning
import FactEngine.Proofs.Invalidation
import FactEngine.Proofs.Faithful
import FactEngine.Proofs.Validation
import FactEngine.Proofs.Domain
import FactEngine.Proofs.Relation
import FactEngine.Proofs.Selection
import FactEngine.Proofs.Tuples
import FactEngine.Proofs.Exclusion
import FactEngine.Proofs.Signature
import FactEngine.Proofs.Quote
import FactEngine.Proofs.Entry
import FactEngine.Proofs.ConfigFile
import FactEngine.Proofs.Steps
import FactEngine.Proofs.Inputs
import FactEngine.Proofs.Extension
import FactEngine.Proofs.Freezing
import FactEngine.Proofs.Levels
import FactEngine.Proofs.Recording
import FactEngine.Proofs.TopologicalOrder
import FactEngine.Proofs.NameLists
import FactEngine.Proofs.Grammar
import FactEngine.Proofs.Precedence
import FactEngine.Proofs.Ownership
import FactEngine.Proofs.Columns
import FactEngine.Proofs.Opening
import FactEngine.Proofs.Interning
import FactEngine.Proofs.Comparison
import FactEngine.Proofs.Reordering
import FactEngine.Proofs.Handles
import FactEngine.Proofs.Additions
import FactEngine.Proofs.Cancellation
import FactEngine.Proofs.Drafts
import FactEngine.Proofs.Variables
import FactEngine.Proofs.Adjacency
import FactEngine.Proofs.Projection
