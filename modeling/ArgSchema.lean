import ArgSchema.Value.Exception
import ArgSchema.Value.Members
import ArgSchema.Load
import ArgSchema.Guard
import ArgSchema.Session
import ArgSchema.Proofs.FailingPath
import ArgSchema.Proofs.Confluence
import ArgSchema.Proofs.ReadyMade
import ArgSchema.Proofs.BuiltSchemas
import ArgSchema.Proofs.HashCodes
import ArgSchema.Proofs.Positions
import ArgSchema.Proofs.DeclaredContent
import ArgSchema.Proofs.Relaxing
import ArgSchema.Proofs.Satisfiability
import ArgSchema.Proofs.EqualSpecs
import ArgSchema.Proofs.Snapshots
import ArgSchema.Proofs.SharedValues
import ArgSchema.Proofs.Loading
import ArgSchema.Proofs.Routes
import ArgSchema.Proofs.CheckTree
import ArgSchema.Proofs.Guarding
import ArgSchema.Proofs.Splitting
import ArgSchema.Proofs.StackedGuards
import ArgSchema.Proofs.GuardSpellings
import ArgSchema.Proofs.Views
import ArgSchema.Proofs.SingleField
import ArgSchema.Proofs.NamedByPosition
import ArgSchema.Proofs.Numbers
import ArgSchema.Proofs.BasicTypes
import ArgSchema.Proofs.Descriptions
