/-!
# ScoringTree.Command.Starter

The files of a new project.
-/

namespace ScoringTree
namespace Starter

/-- A model that decides about golf. -/
def model : String :=
  "# Example tree model
data_dictionary:
  - \x7b name: temperature, data_type: double \x7d
  - \x7b name: humidity, data_type: double \x7d
  - \x7b name: outlook, data_type: string \x7d
  - \x7b name: whatIdo, data_type: string \x7d

tree_model:
  model_name: golfing
  algorithm_name: CART
  mining_schema:
    - \x7b name: temperature \x7d
    - \x7b name: humidity \x7d
    - \x7b name: outlook \x7d
    - \x7b name: whatIdo, usage_type: target \x7d
  missing_value_strategy: defaultChild
  no_true_child_strategy: returnLastPrediction
  node:
    id: root
    score: will play
    default_child: overcast
    nodes:
      - id: sunny
        score: will play
        predicate:
          simple: \x7b field: outlook, operator: equal, value: sunny \x7d
        nodes:
          - id: sunny-mild
            score: will play
            score_distributions:
              - \x7b value: will play, record_count: 4 \x7d
              - \x7b value: no play, record_count: 1 \x7d
            predicate:
              compound:
                operator: and
                predicates:
                  - simple: \x7b field: temperature, operator: lessThan, value: 90 \x7d
                  - simple: \x7b field: temperature, operator: greaterThan, value: 50 \x7d
          - id: sunny-humid
            score: no play
            predicate:
              simple: \x7b field: humidity, operator: greaterOrEqual, value: 80 \x7d
      - id: overcast
        score: may play
        predicate:
          simple_set: \x7b field: outlook, operator: isIn, values: [overcast, rain] \x7d
      - id: otherwise
        score: no play
        predicate: \"true\"
"

/-- The configuration of a project of that name. The name is put in as it is. -/
def config (name : String) : String :=
  "# treeforge project configuration
name: " ++ name ++ "
version: \"0.1.0\"

# Package the generated scoring units are placed in
package_name: org.treeforge.generated

models_dir: models
output_dir: generated
"

def records : String :=
  "\x7b\"outlook\": \"sunny\", \"temperature\": 72, \"humidity\": 60\x7d
\x7b\"outlook\": \"rain\", \"temperature\": 65\x7d
\x7b\"temperature\": 70\x7d
"

/-- What version control is to leave alone. -/
def ignored : String :=
  "# Generated sources
generated/

# IDE
.idea/
.vscode/
*.swp
"

/-- The folders of a new project. -/
def folders : List String := ["models", "data"]

/-- The files of a new project, in the order in which they are written. -/
def files (name : String) : List (String × String) :=
  [("treeforge.yaml", config name), ("models/golfing.yaml", model),
    ("data/records.jsonl", records), (".gitignore", ignored)]

end Starter
end ScoringTree
